/-!
# `OverrideCheck.TypeRef.Basic`: type references

A member of an API says which type it has by a type reference: a
primitive, a definition named by its fully qualified name, a
collection of elements, or a list of arms joined by union or
intersection. A place that may lack a type altogether (a method
without a result) holds `Option TypeRef`, and the absent reference is
`void`.

Two references are the same type only when they are the same tree:
the order of the arms counts, and so does a repeated arm. The module
decides that equality, and the side condition `TypeRef.wellFormed`
under which a reference means anything.
-/

set_option autoImplicit false

namespace OverrideCheck

/-- The types that every assembly may use without defining them. -/
inductive Primitive where
  | date
  | string
  | number
  | boolean
  | json
  | any
  deriving DecidableEq, Repr, Inhabited

namespace Primitive

/-- The word that stands for the primitive in texts and files. -/
def name : Primitive → String
  | date => "date"
  | string => "string"
  | number => "number"
  | boolean => "boolean"
  | json => "json"
  | any => "any"

/-- Every primitive, in the order in which messages list them. -/
def all : List Primitive := [date, string, number, boolean, json, any]

end Primitive

/-- The two collections. Only an array may be narrowed. -/
inductive CollectionKind where
  | array
  | map
  deriving DecidableEq, Repr, Inhabited

namespace CollectionKind

/-- The word that stands for the collection in texts and files. -/
def name : CollectionKind → String
  | array => "array"
  | map => "map"

/-- Both collections, in the order in which messages list them. -/
def all : List CollectionKind := [array, map]

end CollectionKind

/-- A reference to a type, as a member writes it. -/
inductive TypeRef where
  | primitive (kind : Primitive)
  | named (fqn : String)
  | collection (kind : CollectionKind) (element : TypeRef)
  | union (arms : List TypeRef)
  | intersection (arms : List TypeRef)
  deriving Repr, Inhabited

namespace TypeRef

mutual

/-- Equality of references, decided tree against tree. -/
def decEq : (a b : TypeRef) → Decidable (a = b)
  | primitive p, primitive q =>
    if h : p = q then .isTrue (h ▸ rfl) else .isFalse fun e => h (primitive.inj e)
  | named s, named t =>
    if h : s = t then .isTrue (h ▸ rfl) else .isFalse fun e => h (named.inj e)
  | collection k a, collection l b =>
    if h : k = l then
      match decEq a b with
      | .isTrue e => .isTrue (h ▸ e ▸ rfl)
      | .isFalse n => .isFalse fun e => n (collection.inj e).2
    else .isFalse fun e => h (collection.inj e).1
  | union as, union bs =>
    match decEqArms as bs with
    | .isTrue e => .isTrue (e ▸ rfl)
    | .isFalse n => .isFalse fun e => n (union.inj e)
  | intersection as, intersection bs =>
    match decEqArms as bs with
    | .isTrue e => .isTrue (e ▸ rfl)
    | .isFalse n => .isFalse fun e => n (intersection.inj e)
  | primitive _, named _ | primitive _, collection _ _ | primitive _, union _
  | primitive _, intersection _ => .isFalse nofun
  | named _, primitive _ | named _, collection _ _ | named _, union _
  | named _, intersection _ => .isFalse nofun
  | collection _ _, primitive _ | collection _ _, named _ | collection _ _, union _
  | collection _ _, intersection _ => .isFalse nofun
  | union _, primitive _ | union _, named _ | union _, collection _ _
  | union _, intersection _ => .isFalse nofun
  | intersection _, primitive _ | intersection _, named _ | intersection _, collection _ _
  | intersection _, union _ => .isFalse nofun

/-- Equality of lists of arms, position by position. -/
def decEqArms : (as bs : List TypeRef) → Decidable (as = bs)
  | [], [] => .isTrue rfl
  | a :: as, b :: bs =>
    match decEq a b, decEqArms as bs with
    | .isTrue e, .isTrue e' => .isTrue (e ▸ e' ▸ rfl)
    | .isFalse n, _ => .isFalse fun e => n (List.cons.inj e).1
    | _, .isFalse n => .isFalse fun e => n (List.cons.inj e).2
  | [], _ :: _ | _ :: _, [] => .isFalse nofun

end

instance : DecidableEq TypeRef := decEq

mutual

/-- Every union and intersection inside the reference has at least two
arms. A file can write fewer, and such a reference is no type: it is
refused even against itself. -/
def wellFormed : TypeRef → Bool
  | primitive _ | named _ => true
  | collection _ element => element.wellFormed
  | union arms | intersection arms => 2 ≤ arms.length && wellFormedArms arms

/-- Every arm is well formed. -/
def wellFormedArms : List TypeRef → Bool
  | [] => true
  | arm :: arms => arm.wellFormed && wellFormedArms arms

end

mutual

/-- The fully qualified names that the reference mentions, from left to
right, a name as often as it stands there. -/
def names : TypeRef → List String
  | primitive _ => []
  | named fqn => [fqn]
  | collection _ element => element.names
  | union arms | intersection arms => namesOfArms arms

/-- The names that a list of arms mentions. -/
def namesOfArms : List TypeRef → List String
  | [] => []
  | arm :: arms => arm.names ++ namesOfArms arms

end

theorem wellFormedArms_eq_all (arms : List TypeRef) :
    wellFormedArms arms = arms.all wellFormed := by
  induction arms with
  | nil => rfl
  | cons arm arms ih => simp [wellFormedArms, ih]

theorem namesOfArms_eq_flatMap (arms : List TypeRef) :
    namesOfArms arms = arms.flatMap names := by
  induction arms with
  | nil => rfl
  | cons arm arms ih => simp [namesOfArms, ih]

/-- The primitive that the reference is, if it is one. -/
def primitive? : TypeRef → Option Primitive
  | primitive kind => some kind
  | _ => none

/-- The name that the reference is, if it is one. -/
def named? : TypeRef → Option String
  | named fqn => some fqn
  | _ => none

/-- The kind of the outermost collection. -/
def collectionKind? : TypeRef → Option CollectionKind
  | collection kind _ => some kind
  | _ => none

/-- The arms of a union or an intersection. -/
def arms? : TypeRef → Option (List TypeRef)
  | union arms | intersection arms => some arms
  | _ => none

/-- The element of an array. -/
def arrayElement? : TypeRef → Option TypeRef
  | collection .array element => some element
  | _ => none

/-- The element of a map. -/
def mapElement? : TypeRef → Option TypeRef
  | collection .map element => some element
  | _ => none

/-- Whether the reference is a union. -/
def isUnion : TypeRef → Bool
  | union _ => true
  | _ => false

/-- Whether the reference is an intersection. -/
def isIntersection : TypeRef → Bool
  | intersection _ => true
  | _ => false

/-- An array of the given elements. -/
abbrev array (element : TypeRef) : TypeRef := collection .array element

/-- A map to the given elements. -/
abbrev map (element : TypeRef) : TypeRef := collection .map element

end TypeRef

end OverrideCheck
