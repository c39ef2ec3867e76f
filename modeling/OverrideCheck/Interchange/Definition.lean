import OverrideCheck.Definition
import OverrideCheck.Interchange.TypeRef

/-!
# `OverrideCheck.Interchange.Definition`: definitions in files

Members and definitions are records. Nearly every field has a default:
flags are off, lists are empty, optional values are absent. What has
its default is not written. The kind of a definition is the tag that
tells which record it is.
-/

set_option autoImplicit false

namespace OverrideCheck.Interchange

open Json (Decoder Layout required)

/-! ## Reading members -/

/-- A property while it is read. -/
structure PropertyDraft where
  name : Option String := none
  type : Option TypeRef := none
  immutable : Option Bool := none
  isStatic : Option Bool := none
  optional : Option Bool := none
  isAbstract : Option Bool := none

/-- The layout of a property. -/
def property : Layout PropertyDraft Property where
  name := "Property"
  fields :=
    [.of "name" Json.string (·.name) fun s v => { s with name := some v },
      .of "type" typeRef (·.type) fun s v => { s with type := some v },
      .of "immutable" Json.boolean (·.immutable) fun s v => { s with immutable := some v },
      .of "static" Json.boolean (·.isStatic) fun s v => { s with isStatic := some v },
      .of "optional" Json.boolean (·.optional) fun s v => { s with optional := some v },
      .of "abstract" Json.boolean (·.isAbstract) fun s v => { s with isAbstract := some v }]
  start := {}
  complete absent s := do
    let name ← required absent "name" s.name
    let type ← required absent "type" s.type
    return {
      name, type
      immutable := s.immutable.getD false
      isStatic := s.isStatic.getD false
      optional := s.optional.getD false
      isAbstract := s.isAbstract.getD false }

/-- A parameter while it is read. -/
structure ParameterDraft where
  name : Option String := none
  type : Option TypeRef := none
  optional : Option Bool := none
  variadic : Option Bool := none

/-- The layout of a parameter. -/
def parameter : Layout ParameterDraft Parameter where
  name := "Parameter"
  fields :=
    [.of "name" Json.string (·.name) fun s v => { s with name := some v },
      .of "type" typeRef (·.type) fun s v => { s with type := some v },
      .of "optional" Json.boolean (·.optional) fun s v => { s with optional := some v },
      .of "variadic" Json.boolean (·.variadic) fun s v => { s with variadic := some v }]
  start := {}
  complete absent s := do
    let name ← required absent "name" s.name
    let type ← required absent "type" s.type
    return { name, type, optional := s.optional.getD false, variadic := s.variadic.getD false }

/-- A returned value while it is read. -/
structure ReturnValueDraft where
  type : Option TypeRef := none
  optional : Option Bool := none

/-- The layout of a returned value. -/
def returnValue : Layout ReturnValueDraft ReturnValue where
  name := "ReturnValue"
  fields :=
    [.of "type" typeRef (·.type) fun s v => { s with type := some v },
      .of "optional" Json.boolean (·.optional) fun s v => { s with optional := some v }]
  start := {}
  complete absent s := do
    let type ← required absent "type" s.type
    return { type, optional := s.optional.getD false }

/-- A method while it is read. Null is a value of `returns`. -/
structure MethodDraft where
  name : Option String := none
  returns : Option (Option ReturnValue) := none
  parameters : Option (List Parameter) := none
  isStatic : Option Bool := none
  isAbstract : Option Bool := none

/-- The layout of a method. -/
def method : Layout MethodDraft Method where
  name := "Method"
  fields :=
    [.of "name" Json.string (·.name) fun s v => { s with name := some v },
      .of "returns" (Json.optional returnValue.decoder) (·.returns)
        fun s v => { s with returns := some v },
      .of "parameters" (Json.list parameter.decoder) (·.parameters)
        fun s v => { s with parameters := some v },
      .of "static" Json.boolean (·.isStatic) fun s v => { s with isStatic := some v },
      .of "abstract" Json.boolean (·.isAbstract) fun s v => { s with isAbstract := some v }]
  start := {}
  complete absent s := do
    let name ← required absent "name" s.name
    return {
      name
      returns := s.returns.join
      parameters := s.parameters.getD []
      isStatic := s.isStatic.getD false
      isAbstract := s.isAbstract.getD false }

/-- The layout of a constant of an enumeration. -/
def enumMember : Layout (Option String) EnumMember where
  name := "EnumMember"
  fields := [.of "name" Json.string id fun _ v => some v]
  start := none
  complete absent s := do return { name := ← required absent "name" s }

/-! ## Reading definitions -/

/-- A class while it is read. Null is a value of `base`. -/
structure ClassDraft where
  fqn : Option String := none
  base : Option (Option String) := none
  interfaces : Option (List String) := none
  isAbstract : Option Bool := none
  properties : Option (List Property) := none
  methods : Option (List Method) := none

/-- The layout of a class. -/
def classDef : Layout ClassDraft ClassDef where
  name := "ClassType"
  fields :=
    [.of "fqn" Json.string (·.fqn) fun s v => { s with fqn := some v },
      .of "base" (Json.optional Json.string) (·.base) fun s v => { s with base := some v },
      .of "interfaces" (Json.list Json.string) (·.interfaces)
        fun s v => { s with interfaces := some v },
      .of "abstract" Json.boolean (·.isAbstract) fun s v => { s with isAbstract := some v },
      .of "properties" (Json.list property.decoder) (·.properties)
        fun s v => { s with properties := some v },
      .of "methods" (Json.list method.decoder) (·.methods)
        fun s v => { s with methods := some v }]
  start := {}
  complete absent s := do
    let fqn ← required absent "fqn" s.fqn
    return {
      fqn
      base := s.base.join
      interfaces := s.interfaces.getD []
      isAbstract := s.isAbstract.getD false
      properties := s.properties.getD []
      methods := s.methods.getD [] }

/-- An interface while it is read. -/
structure InterfaceDraft where
  fqn : Option String := none
  interfaces : Option (List String) := none
  properties : Option (List Property) := none
  methods : Option (List Method) := none

/-- The layout of an interface. -/
def interfaceDef : Layout InterfaceDraft InterfaceDef where
  name := "InterfaceType"
  fields :=
    [.of "fqn" Json.string (·.fqn) fun s v => { s with fqn := some v },
      .of "interfaces" (Json.list Json.string) (·.interfaces)
        fun s v => { s with interfaces := some v },
      .of "properties" (Json.list property.decoder) (·.properties)
        fun s v => { s with properties := some v },
      .of "methods" (Json.list method.decoder) (·.methods)
        fun s v => { s with methods := some v }]
  start := {}
  complete absent s := do
    let fqn ← required absent "fqn" s.fqn
    return {
      fqn
      interfaces := s.interfaces.getD []
      properties := s.properties.getD []
      methods := s.methods.getD [] }

/-- An enumeration while it is read. -/
structure EnumDraft where
  fqn : Option String := none
  members : Option (List EnumMember) := none

/-- The layout of an enumeration. -/
def enumDef : Layout EnumDraft EnumDef where
  name := "EnumType"
  fields :=
    [.of "fqn" Json.string (·.fqn) fun s v => { s with fqn := some v },
      .of "members" (Json.list enumMember.decoder) (·.members)
        fun s v => { s with members := some v }]
  start := {}
  complete absent s := do
    let fqn ← required absent "fqn" s.fqn
    return { fqn, members := s.members.getD [] }

/-- The record of each kind of definition. -/
def recordOf : TypeKind → Decoder TypeDef
  | .classKind => fun ctx o => (classDef.decoder ctx o).map .class
  | .interfaceKind => fun ctx o => (interfaceDef.decoder ctx o).map .interface
  | .enumKind => fun ctx o => (enumDef.decoder ctx o).map .enum

/-- A definition. -/
def typeDef : Decoder TypeDef :=
  Json.Tagged.decoder (TypeKind.all.map fun k => (k.name, recordOf k)) "TypeDef" "kind"

/-- Read a definition from a text. -/
def parseTypeDef (text : String) : Except Json.Fault TypeDef := Json.decode typeDef text

/-! ## Writing -/

/-- A flag, if it is on. -/
def flagJson (name : String) (b : Bool) : List (String × Json) :=
  if b then [(name, .bool true)] else []

/-- A list, if it has elements. -/
def listJson {α : Type} (name : String) (toJson : α → Json) (as : List α) :
    List (String × Json) :=
  if as.isEmpty then [] else [(name, .arr (as.map toJson))]

/-- A value, if it is there. -/
def optionJson {α : Type} (name : String) (toJson : α → Json) (a : Option α) :
    List (String × Json) :=
  a.toList.map fun a => (name, toJson a)

/-- A property as JSON. -/
def propertyJson (p : Property) : Json :=
  .obj ([("name", .str p.name), ("type", typeRefJson p.type)]
    ++ flagJson "immutable" p.immutable
    ++ flagJson "static" p.isStatic
    ++ flagJson "optional" p.optional
    ++ flagJson "abstract" p.isAbstract)

/-- A parameter as JSON. -/
def parameterJson (p : Parameter) : Json :=
  .obj ([("name", .str p.name), ("type", typeRefJson p.type)]
    ++ flagJson "optional" p.optional
    ++ flagJson "variadic" p.variadic)

/-- A returned value as JSON. -/
def returnValueJson (r : ReturnValue) : Json :=
  .obj (("type", typeRefJson r.type) :: flagJson "optional" r.optional)

/-- A method as JSON. -/
def methodJson (m : Method) : Json :=
  .obj (("name", .str m.name)
    :: optionJson "returns" returnValueJson m.returns
    ++ listJson "parameters" parameterJson m.parameters
    ++ flagJson "static" m.isStatic
    ++ flagJson "abstract" m.isAbstract)

/-- A constant of an enumeration as JSON. -/
def enumMemberJson (m : EnumMember) : Json := .obj [("name", .str m.name)]

/-- A definition as JSON, its kind first. -/
def typeDefJson (d : TypeDef) : Json :=
  .obj (("kind", .str d.kind.name) :: ("fqn", .str d.fqn) :: match d with
    | .class c =>
      optionJson "base" .str c.base
        ++ listJson "interfaces" .str c.interfaces
        ++ flagJson "abstract" c.isAbstract
        ++ listJson "properties" propertyJson c.properties
        ++ listJson "methods" methodJson c.methods
    | .interface i =>
      listJson "interfaces" .str i.interfaces
        ++ listJson "properties" propertyJson i.properties
        ++ listJson "methods" methodJson i.methods
    | .enum e => listJson "members" enumMemberJson e.members)

end OverrideCheck.Interchange
