import OverrideCheck.Assembly
import OverrideCheck.Interchange.Definition

/-!
# `OverrideCheck.Interchange.Assembly`: assemblies in files

An assembly is a record with its definitions as a map from keys. The
map is always written, also when it is empty. A key that is repeated in
a text keeps its first place and takes its last definition.
-/

set_option autoImplicit false

namespace OverrideCheck.Interchange

open Json (Layout required)

/-- An assembly while it is read. Null is a value of `version`. -/
structure AssemblyDraft where
  name : Option String := none
  version : Option (Option String) := none
  types : Option (List (String × TypeDef)) := none

/-- The layout of an assembly. -/
def assembly : Layout AssemblyDraft Assembly where
  name := "Assembly"
  fields :=
    [.of "name" Json.string (·.name) fun s v => { s with name := some v },
      .of "version" (Json.optional Json.string) (·.version)
        fun s v => { s with version := some v },
      .of "types" (Json.entries typeDef) (·.types) fun s v => { s with types := some v }]
  start := {}
  complete absent s := do
    let name ← required absent "name" s.name
    return .ofEntries name s.version.join (s.types.getD [])

/-- Read an assembly from a text. -/
def parseAssembly (text : String) : Except Json.Fault Assembly :=
  Json.decode assembly.decoder text

/-- An assembly as JSON. -/
def assemblyJson (a : Assembly) : Json :=
  .obj (("name", .str a.name)
    :: optionJson "version" .str a.version
    ++ [("types", .obj (a.types.map fun (key, d) => (key, typeDefJson d)))])

/-- An assembly as a text that can be read. -/
def renderAssembly (a : Assembly) : String := (assemblyJson a).pretty

end OverrideCheck.Interchange
