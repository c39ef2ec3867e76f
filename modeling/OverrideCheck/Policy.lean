import OverrideCheck.Narrowing.Basic

/-!
# `OverrideCheck.Policy`: where a narrowing may be used

That one type may stand in for another does not mean that an override
may make use of it. Parameters, mutable properties and static members
have to repeat the overridden type exactly, because there a narrower
type is not safe in every target language. So do members that
implement or extend what an interface declares, unless the policy
allows it. What remains, results and read-only properties of classes
that override a base class, may be narrowed.
-/

set_option autoImplicit false

namespace OverrideCheck

/-- Where in a member the compared type stands. -/
inductive Position where
  | propertyRead
  | methodReturn
  | methodParameter
  deriving DecidableEq, Repr, Inhabited

/-- What declares the overridden member. -/
inductive Origin where
  | baseClass
  | interface
  deriving DecidableEq, Repr, Inhabited

/-- What declares the overriding member. -/
inductive DeclaringKind where
  | classMember
  | interfaceMember
  deriving DecidableEq, Repr, Inhabited

/-- The place of a comparison, as far as the policy looks at it. -/
structure Site where
  position : Position
  /-- The property is read only. Methods count as such. -/
  immutable : Bool
  isStatic : Bool
  origin : Origin
  declaredOn : DeclaringKind
  deriving DecidableEq, Repr, Inhabited

/-- How an overriding type has to relate to the overridden one. -/
inductive VarianceRule where
  /-- The two have to be equal. -/
  | exact
  /-- The two may be equal, or the first a narrowing of the second. -/
  | covariant
  deriving DecidableEq, Repr, Inhabited

/-- The word for a rule. -/
def VarianceRule.name : VarianceRule → String
  | .exact => "exact"
  | .covariant => "covariant"

/-- The outcome of one comparison. -/
inductive Verdict where
  | identical
  | covariantNarrowing
  /-- There are no reasons if the narrowing as such would be allowed and
  only the site forbids it. -/
  | rejected (rule : VarianceRule) (reasons : List Reason)
  deriving DecidableEq, Repr, Inhabited

namespace Verdict

/-- Whether the override may stand. -/
def isAccepted : Verdict → Bool
  | rejected .. => false
  | _ => true

/-- Whether the override may stand although the types differ. -/
def isCovariant : Verdict → Bool
  | covariantNarrowing => true
  | _ => false

end Verdict

/-- What the user may choose. -/
structure Policy where
  /-- Members of interfaces may be narrowed. -/
  allowInterfaceCovariance : Bool := false
  deriving DecidableEq, Repr, Inhabited

namespace Policy

/-- The rule for a site. -/
def ruleFor (p : Policy) (site : Site) : VarianceRule :=
  if site.position = .methodParameter ∨ !site.immutable ∨ site.isStatic then .exact
  else if (site.origin = .interface ∨ site.declaredOn = .interfaceMember) ∧
      !p.allowInterfaceCovariance then .exact
  else .covariant

/-- Compare an overriding type with the overridden one. Equal types pass
everywhere, even where neither is well formed. -/
def check (p : Policy) (w : World) (site : Site) (sub sup : Option TypeRef) : Verdict :=
  if sub = sup then .identical
  else
    let explanation := explain w sub sup
    match p.ruleFor site, explanation.allowed with
    | .covariant, true => .covariantNarrowing
    | rule, _ => .rejected rule explanation.reasons

end Policy

end OverrideCheck
