import OverrideCheck.Ancestry
import OverrideCheck.Diagnostic.Basic
import OverrideCheck.Policy

/-!
# `OverrideCheck.Audit`: the overrides of an assembly

The audit goes through the classes and interfaces of an assembly in
declaration order. It reports what their ancestors could not be
followed to and which types their members mention in vain. Then it
pairs each member with the declarations of the same name that it
overrides: that of the nearest base class that has one, and that of
every interface above. Each such pair keeps the contract of an
override and is recorded, or breaks it and is reported, with one
diagnostic for each thing that is wrong.

Nothing is taken to be compatible because it could not be seen: what
does not resolve is reported here and refused by the narrowing.
-/

set_option autoImplicit false

namespace OverrideCheck

/-- The place of a member. -/
def memberLocation (fqn member : String) : String := fqn ++ "#" ++ member

/-- An override that keeps the contract. -/
structure ValidOverride where
  /-- The type that declares the overriding member. -/
  typeFqn : String
  member : String
  /-- The type that declares the overridden member. -/
  overrides : String
  /-- The type of the property or the result was narrowed. -/
  covariant : Bool
  deriving DecidableEq, Repr, Inhabited

/-- What an audit finds. -/
structure Findings where
  diagnostics : List Diagnostic := []
  overrides : List ValidOverride := []
  deriving DecidableEq, Repr, Inhabited

namespace Findings

/-- The findings of one audit after those of another. -/
def append (a b : Findings) : Findings :=
  ⟨a.diagnostics ++ b.diagnostics, a.overrides ++ b.overrides⟩

instance : Append Findings := ⟨append⟩

/-- All findings, in order. -/
def concat (fs : List Findings) : Findings :=
  ⟨fs.flatMap (·.diagnostics), fs.flatMap (·.overrides)⟩

@[simp]
theorem diagnostics_append (a b : Findings) :
    (a ++ b).diagnostics = a.diagnostics ++ b.diagnostics := rfl

@[simp]
theorem diagnostics_concat (fs : List Findings) :
    (concat fs).diagnostics = fs.flatMap (·.diagnostics) := rfl

@[simp]
theorem overrides_append (a b : Findings) :
    (a ++ b).overrides = a.overrides ++ b.overrides := rfl

@[simp]
theorem overrides_concat (fs : List Findings) :
    (concat fs).overrides = fs.flatMap (·.overrides) := rfl

/-- How many of the reports are errors. -/
def errorCount (f : Findings) : Nat := f.diagnostics.countP Diagnostic.isError

/-- Whether an error was reported. -/
def hasErrors (f : Findings) : Bool := f.diagnostics.any Diagnostic.isError

end Findings

/-- A member together with a declaration that it overrides. -/
structure OverridePair where
  typeFqn : String
  member : Member
  ownerFqn : String
  overridden : Member
  origin : Origin
  declaredOn : DeclaringKind
  deriving DecidableEq, Repr, Inhabited

namespace OverridePair

/-- The most reasons that one diagnostic carries. -/
def maxReasons : Nat := 8

/-- Where the overriding member is. -/
def location (pair : OverridePair) : String := memberLocation pair.typeFqn pair.member.name

/-- Where the overridden member is. -/
def overriddenLocation (pair : OverridePair) : String :=
  memberLocation pair.ownerFqn pair.overridden.name

/-- The site of a comparison within the pair. -/
def site (pair : OverridePair) (position : Position) (immutable isStatic : Bool) : Site :=
  { position, immutable, isStatic, origin := pair.origin, declaredOn := pair.declaredOn }

/-- The note that points to the overridden declaration. -/
def declarationNote (pair : OverridePair) : Related :=
  let rule := Rule.overriddenDeclarationIsHere
  { location := pair.overriddenLocation
    message := fill rule.template [pair.overriddenLocation]
    severity := rule.severity
    code := rule.code }

/-- A report on the overriding member. It points to the overridden
declaration first, and then gives the reasons as far as there is
room. -/
def report (pair : OverridePair) (rule : Rule) (args : List String)
    (reasons : List Reason := []) : Diagnostic :=
  let notes : List Related := (reasons.take maxReasons).map fun r =>
    { location := pair.location, message := r.message }
  { Diagnostic.ofRule pair.location rule args with related := pair.declarationNote :: notes }

/-- A report if something changed that must not. -/
def reportIf (changed : Bool) (d : Diagnostic) : List Diagnostic := if changed then [d] else []

/-- The two members have to be both static or both not. -/
def staticViolations (pair : OverridePair) : List Diagnostic :=
  reportIf (pair.member.isStatic != pair.overridden.isStatic)
    (pair.report .staticModifierChanged [pair.location, pair.overriddenLocation])

/-- How the types of two properties compare. Whether the site may be
narrowed depends on the overriding property. -/
def propertyVerdict (p : Policy) (w : World) (pair : OverridePair) (sub sup : Property) : Verdict :=
  p.check w (pair.site .propertyRead sub.immutable sub.isStatic) (some sub.type) (some sup.type)

/-- How the results of two methods compare. -/
def returnVerdict (p : Policy) (w : World) (pair : OverridePair) (sub sup : Method) : Verdict :=
  p.check w (pair.site .methodReturn true sub.isStatic) sub.returnType sup.returnType

/-- How the types of two parameters compare. -/
def parameterVerdict (p : Policy) (w : World) (pair : OverridePair) (sub : Method)
    (a b : Parameter) : Verdict :=
  p.check w (pair.site .methodParameter true sub.isStatic) (some a.type) (some b.type)

/-- What is wrong between two properties. -/
def propertyViolations (p : Policy) (w : World) (pair : OverridePair) (sub sup : Property) :
    List Diagnostic :=
  let places := [pair.location, pair.overriddenLocation]
  reportIf (sub.optional != sup.optional) (pair.report .propertyOptionalityChanged places)
    ++ reportIf (sub.immutable != sup.immutable) (pair.report .propertyMutabilityChanged places)
    ++ match propertyVerdict p w pair sub sup with
      | .rejected _ reasons =>
        [pair.report .propertyTypeNotCompatible
          [sub.type.render, pair.location, sup.type.render, pair.overriddenLocation] reasons]
      | _ => []

/-- What is wrong between two parameters of one position. -/
def parameterViolations (p : Policy) (w : World) (pair : OverridePair) (sub : Method)
    (a b : Parameter) : List Diagnostic :=
  let places := [a.name, pair.location, pair.overriddenLocation]
  reportIf (a.optional != b.optional) (pair.report .parameterOptionalityChanged places)
    ++ reportIf (a.variadic != b.variadic) (pair.report .parameterVariadicChanged places)
    ++ reportIf (!(parameterVerdict p w pair sub a b).isAccepted)
        (pair.report .parameterTypeChanged
          [a.name, pair.location, a.type.render, pair.overriddenLocation, b.type.render])

/-- What is wrong between the parameters of two methods. They are
compared one by one only if there are equally many. -/
def parameterListViolations (p : Policy) (w : World) (pair : OverridePair) (sub sup : Method) :
    List Diagnostic :=
  if sub.parameters.length ≠ sup.parameters.length then
    [pair.report .parameterCountChanged
      [pair.location, toString sub.parameters.length, pair.overriddenLocation,
        toString sup.parameters.length]]
  else
    (sub.parameters.zip sup.parameters).flatMap fun (a, b) => parameterViolations p w pair sub a b

/-- The results of two methods that both have one agree on whether they
may be absent. -/
def returnOptionalityChanged (sub sup : Method) : Bool :=
  match sub.returns, sup.returns with
  | some a, some b => a.optional != b.optional
  | _, _ => false

/-- What is wrong between two methods. -/
def methodViolations (p : Policy) (w : World) (pair : OverridePair) (sub sup : Method) :
    List Diagnostic :=
  parameterListViolations p w pair sub sup
    ++ reportIf (returnOptionalityChanged sub sup)
        (pair.report .returnOptionalityChanged [pair.location, pair.overriddenLocation])
    ++ match returnVerdict p w pair sub sup with
      | .rejected _ reasons =>
        [pair.report .returnTypeNotCompatible
          [TypeRef.renderOptional sub.returnType, pair.location,
            TypeRef.renderOptional sup.returnType, pair.overriddenLocation] reasons]
      | _ => []

/-- Everything that is wrong with the pair. -/
def violations (p : Policy) (w : World) (pair : OverridePair) : List Diagnostic :=
  match pair.member, pair.overridden with
  | .property sub, .property sup => pair.staticViolations ++ propertyViolations p w pair sub sup
  | .method sub, .method sup => pair.staticViolations ++ methodViolations p w pair sub sup
  | sub, sup =>
    [pair.report .memberKindChanged
      [pair.location, sub.kindName, pair.overriddenLocation, sup.kindName]]

/-- Whether the pair narrows the type of the property or the result. -/
def isCovariant (p : Policy) (w : World) (pair : OverridePair) : Bool :=
  match pair.member, pair.overridden with
  | .property sub, .property sup => (propertyVerdict p w pair sub sup).isCovariant
  | .method sub, .method sup => (returnVerdict p w pair sub sup).isCovariant
  | _, _ => false

/-- The pair is recorded if nothing is wrong with it, and else it is
reported. -/
def findings (p : Policy) (w : World) (pair : OverridePair) : Findings :=
  match pair.violations p w with
  | [] =>
    { overrides :=
        [⟨pair.typeFqn, pair.member.name, pair.ownerFqn, pair.isCovariant p w⟩] }
  | diagnostics => { diagnostics }

end OverridePair

namespace Audit

/-- The names of a list, each at its first place. -/
def distinct (names : List String) : List String := go [] names
where
  /-- The names that are not among those already seen. -/
  go (seen : List String) : List String → List String
    | [] => []
    | name :: rest => if name ∈ seen then go seen rest else name :: go (name :: seen) rest

/-- What the ancestors of a type could not be followed to. -/
def ancestorDiagnostics (typeFqn : String) (a : Ancestors) : List Diagnostic :=
  (distinct a.unresolved).map (fun fqn => .ofRule typeFqn .unresolvedTypeReference [fqn, typeFqn])
    ++ (distinct a.cycles).map (fun fqn => .ofRule typeFqn .inheritanceCycle [typeFqn, fqn])
    ++ (distinct a.limitExceeded).map
        (fun fqn => .ofRule typeFqn .inheritanceWalkLimitExceeded [typeFqn, fqn])

/-- The names that a member mentions and that stand for nothing, each
once. -/
def unresolvedNames (w : World) (m : Member) : List String :=
  distinct ((m.typeRefs.flatMap TypeRef.names).filter fun fqn => (w.resolve fqn).isNone)

/-- The types that a member mentions in vain. -/
def memberDiagnostics (w : World) (typeFqn : String) (m : Member) : List Diagnostic :=
  let location := memberLocation typeFqn m.name
  (unresolvedNames w m).map fun fqn =>
    .ofRule location .unresolvedTypeReference [fqn, location]

/-- What a definition counts as when it declares an overriding member.
An enumeration declares none. -/
def declaringKind? : TypeDef → Option DeclaringKind
  | .class _ => some .classMember
  | .interface _ => some .interfaceMember
  | .enum _ => none

/-- The declarations that a member overrides: in the nearest base class
that has one of the name, then in the interfaces. -/
def overridden (a : Ancestors) (name : String) : List (String × Member × Origin) :=
  let ofBase := (a.baseDeclaring? name).bind fun base =>
    (base.member? name).map fun m => (base.fqn, m, Origin.baseClass)
  let ofInterfaces := (a.interfacesDeclaring name).filterMap fun i =>
    (i.member? name).map fun m => (i.fqn, m, Origin.interface)
  ofBase.toList ++ ofInterfaces

/-- The pairs that a member forms with what it overrides. -/
def pairs (d : TypeDef) (declaredOn : DeclaringKind) (a : Ancestors) (m : Member) :
    List OverridePair :=
  (overridden a m.name).map fun (ownerFqn, overridden, origin) =>
    { typeFqn := d.fqn, member := m, ownerFqn, overridden, origin, declaredOn }

/-- The findings about one member. -/
def checkMember (p : Policy) (w : World) (d : TypeDef) (declaredOn : DeclaringKind)
    (a : Ancestors) (m : Member) : Findings :=
  { diagnostics := memberDiagnostics w d.fqn m }
    ++ .concat ((pairs d declaredOn a m).map (·.findings p w))

/-- The findings about one definition. -/
def checkType (p : Policy) (w : World) (d : TypeDef) : Findings :=
  match declaringKind? d with
  | none => {}
  | some declaredOn =>
    let ancestors := Ancestors.collect w d
    { diagnostics := ancestorDiagnostics d.fqn ancestors }
      ++ .concat (d.members.map (checkMember p w d declaredOn ancestors))

/-- The findings about an assembly, in declaration order. -/
def checkAssembly (p : Policy) (a : Assembly) (deps : Dependencies) : Findings :=
  let w := World.of a deps
  .concat (a.definitions.map (checkType p w))

end Audit

end OverrideCheck
