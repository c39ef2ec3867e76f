import OverrideCheck.TypeRef.Basic
import OverrideCheck.Json.Record
import OverrideCheck.Json.Value

/-!
# `OverrideCheck.Interchange.TypeRef`: type references in files

A type reference is a choice of five variants. A primitive and a name
are held as they are. A collection holds its kind and the type of its
elements, a union and an intersection hold their arms.
-/

set_option autoImplicit false

namespace OverrideCheck.Interchange

open Json (Decoder Layout required)

/-! ## Reading -/

/-- A primitive, by its name. -/
def primitive : Decoder Primitive :=
  Json.choice (Primitive.all.map fun p => .unit p.name p)

/-- A kind of collection, by its name. -/
def collectionKind : Decoder CollectionKind :=
  Json.choice (CollectionKind.all.map fun k => .unit k.name k)

/-- A collection while it is read. -/
structure CollectionDraft where
  kind : Option CollectionKind := none
  element : Option TypeRef := none

/-- The layout of a collection. -/
def collection (element : Decoder TypeRef) : Layout CollectionDraft TypeRef where
  name := "CollectionType"
  fields :=
    [.of "kind" collectionKind (·.kind) fun s k => { s with kind := some k },
      .of "elementtype" element (·.element) fun s t => { s with element := some t }]
  start := {}
  complete absent s := do
    let kind ← required absent "kind" s.kind
    let element ← required absent "elementtype" s.element
    return .collection kind element

/-- The layout of a union or an intersection, whose draft is its list
of arms. -/
def arms (name : String) (arm : Decoder TypeRef) (make : List TypeRef → TypeRef) :
    Layout (Option (List TypeRef)) TypeRef where
  name := name
  fields := [.of "types" (Json.list arm) id fun _ ts => some ts]
  start := none
  complete absent s := do return make (← required absent "types" s)

/-- A type reference with at most this many references inside each
other. -/
def typeRefWithin : Nat → Decoder TypeRef
  | 0 => fun _ _ => .error (.cut .malformed)
  | depth + 1 =>
    let inner := typeRefWithin depth
    Json.choice
      [.value "primitive" primitive .primitive,
        .value "fqn" Json.string .named,
        .value "collection" (collection inner).decoder id,
        .value "union" (arms "UnionType" inner .union).decoder id,
        .value "intersection" (arms "IntersectionType" inner .intersection).decoder id]

/-- A type reference. Each reference inside another one opens a
container, so that no text reaches the bound on their number. -/
def typeRef : Decoder TypeRef := typeRefWithin (Json.maxNesting + 1)

/-! ## Writing -/

mutual

/-- A type reference as JSON. -/
def typeRefJson : TypeRef → Json
  | .primitive kind => .obj [("primitive", .str kind.name)]
  | .named fqn => .obj [("fqn", .str fqn)]
  | .collection kind element =>
    .obj [("collection",
      .obj [("kind", .str kind.name), ("elementtype", typeRefJson element)])]
  | .union arms => .obj [("union", .obj [("types", .arr (typeRefJsons arms))])]
  | .intersection arms => .obj [("intersection", .obj [("types", .arr (typeRefJsons arms))])]

/-- Type references as JSON. -/
def typeRefJsons : List TypeRef → List Json
  | [] => []
  | arm :: rest => typeRefJson arm :: typeRefJsons rest

end

end OverrideCheck.Interchange
