import OverrideCheck.Definition
import OverrideCheck.TypeRef.Render

/-!
# `OverrideCheck.Narrowing.Reason`: why a narrowing is refused

Each rule that refuses a narrowing leaves a reason. A reason keeps the
references and names that it is about; `Reason.message` is the only
place where it becomes a sentence.

Some reasons are findings on the way (`unresolvedType`,
`inheritanceCycle`, `walkLimitExceeded`) and say why a search found
less than there may be. They are left even when the search succeeds in
the end.
-/

set_option autoImplicit false

namespace OverrideCheck

/-- Which side of a comparison has no type. -/
inductive VoidSide where
  | subtype
  | supertype
  deriving DecidableEq, Repr, Inhabited

/-- Why one type may not stand in for another. The first reference or
name is always that of the overriding side. -/
inductive Reason where
  | voidMismatch (side : VoidSide)
  | malformedType (type : TypeRef)
  | mapInvariant (sub sup : TypeRef)
  | unionNotNarrowable (sub sup : TypeRef)
  | intersectionNotCovariant (sub sup : TypeRef)
  | primitiveNotNarrowable (sub sup : TypeRef)
  | shapeMismatch (sub sup : TypeRef)
  | unresolvedType (fqn : String)
  | inheritanceCycle (fqn : String)
  /-- The walk or the descent was cut at this type. -/
  | walkLimitExceeded (place : TypeRef)
  | notASubclass (sub sup : String)
  | interfaceNotExtended (sub sup : String)
  | interfaceNotImplemented (sub sup : String)
  | kindMismatch (sub : String) (subKind : TypeKind) (sup : String) (supKind : TypeKind)
  | arrayElementMismatch (sub sup : TypeRef)
  deriving DecidableEq, Repr, Inhabited

/-- A text in single quotes. -/
def quoted (text : String) : String := "'" ++ text ++ "'"

/-- One type in quotes, the words between, and the other. -/
def relating (sub : String) (words : String) (sup : String) : String :=
  quoted sub ++ words ++ quoted sup

/-- The reason as a sentence. -/
def Reason.message : Reason → String
  | voidMismatch .subtype => "the overriding type is void but the overridden type is not"
  | voidMismatch .supertype => "the overridden type is void but the overriding type is not"
  | malformedType t =>
    quoted t.render ++ " contains a union or intersection with fewer than two members"
  | mapInvariant a b => "maps are invariant: " ++ relating a.render " cannot narrow " b.render
  | unionNotNarrowable a b =>
    "union types cannot be narrowed: " ++ relating a.render " cannot narrow " b.render
  | intersectionNotCovariant a b =>
    "intersection types are input-only: " ++ relating a.render " cannot narrow " b.render
  | primitiveNotNarrowable a b =>
    "primitive types have no subtypes: " ++ relating a.render " cannot narrow " b.render
  | shapeMismatch a b => relating a.render " and " b.render ++ " have incompatible shapes"
  | unresolvedType fqn => "type " ++ quoted fqn ++ " could not be resolved"
  | inheritanceCycle fqn => "inheritance cycle detected at " ++ quoted fqn
  | walkLimitExceeded place => "inheritance walk limit exceeded at " ++ quoted place.render
  | notASubclass a b => "class " ++ relating a " does not extend " b
  | interfaceNotExtended a b => "interface " ++ relating a " does not extend " b
  | interfaceNotImplemented a b => "class " ++ relating a " does not implement " b
  | kindMismatch a k b l =>
    k.name ++ " " ++ relating a (" cannot narrow " ++ l.name ++ " ") b
  | arrayElementMismatch a b =>
    "array element type " ++ relating a.render " cannot narrow " b.render

/-- An answer with the reasons for a refusal, the rule that refused
first. There are none when the narrowing is allowed. -/
structure Explanation where
  allowed : Bool
  reasons : List Reason
  deriving DecidableEq, Repr, Inhabited

/-- The reason that refused the narrowing. -/
def Explanation.primary? (e : Explanation) : Option Reason := e.reasons.head?

end OverrideCheck
