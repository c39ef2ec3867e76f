import OverrideCheck.Proofs.Audit.Contract

/-!
# `OverrideCheck.Proofs.Audit.Outcome`: one outcome for every pair

An audit of a definition compares each member with the declarations
that it overrides. This module says what becomes of each of these
pairs. It is recorded if the contract is kept, and else it is reported,
never both and never neither.

`Audit.memberPairs` lists the pairs of a member without looking at the
audit: the declaration of the nearest base class that has the name, and
then those of the interfaces, in their order. The audit forms the same
pairs (`pairs_eq_memberPairs`).

* `OverridePair.Kept` is the contract of `Proofs/Audit/Contract.lean`
  for a pair. A kept pair leaves one record, and the record calls it
  covariant exactly if the two types differ (`findings_overrides`).
* `OverridePair.Reported` is what holds of the diagnostics about any
  other pair. All of them are made by `OverridePair.report`, each for a
  rule of the contract (`isBreach_of_mem_violations`), so they are
  errors, they are at the place of the member, they point to the
  overridden declaration, and they carry a bounded number of notes.

`checkType_outcomes` puts this together for a definition. It gives the
recorded overrides and the diagnostics as lists, in their order.
-/

set_option autoImplicit false

namespace OverrideCheck

/-- A comparison that passes is a narrowing exactly if the two types
differ. -/
theorem Policy.isCovariant_check {p : Policy} {w : World} {site : Site} {sub sup : Option TypeRef}
    (h : (p.check w site sub sup).isAccepted = true) :
    (p.check w site sub sup).isCovariant = decide (sub ≠ sup) := by
  unfold Policy.check at h ⊢
  by_cases heq : sub = sup
  · simp [heq, Verdict.isCovariant]
  · rw [if_neg heq] at h ⊢
    dsimp only at h ⊢
    split
    · simp [heq, Verdict.isCovariant]
    · simp [Verdict.isAccepted] at h

/-- The rules of the contract between a member and what it overrides. -/
def Rule.breaches : List Rule :=
  [memberKindChanged, staticModifierChanged, propertyOptionalityChanged,
    propertyMutabilityChanged, propertyTypeNotCompatible, parameterCountChanged,
    parameterTypeChanged, parameterOptionalityChanged, parameterVariadicChanged,
    returnTypeNotCompatible, returnOptionalityChanged]

theorem Rule.severity_of_mem_breaches :
    ∀ {rule : Rule}, rule ∈ breaches → rule.severity = .error := by
  decide

namespace OverridePair

variable {p : Policy} {w : World} {pair : OverridePair}

/-- The pair keeps the contract of an override, as far as the policy
lets it narrow types. -/
def Kept (p : Policy) (w : World) (pair : OverridePair) : Prop :=
  Contract (p.Permits w pair.origin pair.declaredOn) pair.member pair.overridden

instance (p : Policy) (w : World) : DecidablePred (Kept p w) := fun pair =>
  decidable_of_iff (pair.violations p w = []) violations_eq_nil_iff

/-- The record of a pair that keeps its contract. It is covariant if the
types of the two properties, or of the two results, are not the same. -/
def recorded (pair : OverridePair) : ValidOverride where
  typeFqn := pair.typeFqn
  member := pair.member.name
  overrides := pair.ownerFqn
  covariant := decide (pair.member.outputType ≠ pair.overridden.outputType)

/-- What holds of the diagnostics about a pair that breaks its contract.
There is at least one. Each is an error at the overriding member. Its
first note is at the member of the same name in the overridden type,
and it has nine notes at most. -/
structure Reported (pair : OverridePair) (diagnostics : List Diagnostic) : Prop where
  ne_nil : diagnostics ≠ []
  isError : ∀ x ∈ diagnostics, x.isError = true
  location : ∀ x ∈ diagnostics, x.location = pair.typeFqn ++ "#" ++ pair.member.name
  points : ∀ x ∈ diagnostics, ∃ note notes, x.related = note :: notes ∧
    note.location = pair.ownerFqn ++ "#" ++ pair.member.name
  bounded : ∀ x ∈ diagnostics, x.related.length ≤ 9

theorem propertyVerdict_isCovariant {sub sup : Property}
    (h : (propertyVerdict p w pair sub sup).isAccepted = true) :
    (propertyVerdict p w pair sub sup).isCovariant = decide (some sub.type ≠ some sup.type) :=
  Policy.isCovariant_check h

theorem returnVerdict_isCovariant {sub sup : Method}
    (h : (returnVerdict p w pair sub sup).isAccepted = true) :
    (returnVerdict p w pair sub sup).isCovariant = decide (sub.returnType ≠ sup.returnType) :=
  Policy.isCovariant_check h

/-- A pair that keeps its contract is covariant exactly if its types
differ. -/
theorem isCovariant_of_kept (h : pair.Kept p w) :
    pair.isCovariant p w = decide (pair.member.outputType ≠ pair.overridden.outputType) := by
  unfold Kept at h
  unfold isCovariant
  generalize pair.member = m at h ⊢
  generalize pair.overridden = o at h ⊢
  cases h with
  | property isStatic optional immutable type =>
    exact propertyVerdict_isCovariant (propertyVerdict_isAccepted_iff.2 type)
  | method isStatic parameters optional type =>
    exact returnVerdict_isCovariant (returnVerdict_isAccepted_iff.2 type)

/-- A pair leaves its record if it keeps its contract, and no record
otherwise. -/
theorem findings_overrides :
    (pair.findings p w).overrides = if pair.Kept p w then [pair.recorded] else [] := by
  by_cases hkept : pair.Kept p w
  · have hnil : pair.violations p w = [] := violations_eq_nil_iff.2 hkept
    rw [if_pos hkept]
    simp [findings, hnil, isCovariant_of_kept hkept, recorded]
  · have hne : pair.violations p w ≠ [] := fun hnil => hkept (violations_eq_nil_iff.1 hnil)
    rw [if_neg hkept]
    unfold findings
    split
    · next hnil => exact absurd hnil hne
    · rfl

theorem eq_of_mem_reportIf {changed : Bool} {d x : Diagnostic} (h : x ∈ reportIf changed d) :
    x = d := by
  unfold reportIf at h
  split at h
  · exact List.mem_singleton.1 h
  · exact absurd h List.not_mem_nil

/-- The diagnostic is a report on the pair, by a rule whose breach is an
error. -/
def IsReport (pair : OverridePair) (x : Diagnostic) : Prop :=
  ∃ rule args reasons, rule.severity = .error ∧ x = pair.report rule args reasons

/-- The diagnostic is a report on the pair, by a rule of the
contract. -/
def IsBreach (pair : OverridePair) (x : Diagnostic) : Prop :=
  ∃ rule args reasons, rule ∈ Rule.breaches ∧ x = pair.report rule args reasons

theorem isBreach_of_mem_propertyViolations {sub sup : Property} {x : Diagnostic}
    (h : x ∈ propertyViolations p w pair sub sup) : pair.IsBreach x := by
  unfold propertyViolations at h
  simp only [List.mem_append] at h
  rcases h with (h | h) | h
  · exact ⟨_, _, _, by decide, eq_of_mem_reportIf h⟩
  · exact ⟨_, _, _, by decide, eq_of_mem_reportIf h⟩
  · split at h
    · exact ⟨_, _, _, by decide, List.mem_singleton.1 h⟩
    · exact absurd h List.not_mem_nil

theorem isBreach_of_mem_parameterViolations {sub : Method} {a b : Parameter} {x : Diagnostic}
    (h : x ∈ parameterViolations p w pair sub a b) : pair.IsBreach x := by
  unfold parameterViolations at h
  simp only [List.mem_append] at h
  rcases h with (h | h) | h
  · exact ⟨_, _, _, by decide, eq_of_mem_reportIf h⟩
  · exact ⟨_, _, _, by decide, eq_of_mem_reportIf h⟩
  · exact ⟨_, _, _, by decide, eq_of_mem_reportIf h⟩

theorem isBreach_of_mem_parameterListViolations {sub sup : Method} {x : Diagnostic}
    (h : x ∈ parameterListViolations p w pair sub sup) : pair.IsBreach x := by
  unfold parameterListViolations at h
  split at h
  · exact ⟨_, _, _, by decide, List.mem_singleton.1 h⟩
  · obtain ⟨⟨a, b⟩, -, h⟩ := List.mem_flatMap.1 h
    exact isBreach_of_mem_parameterViolations h

theorem isBreach_of_mem_methodViolations {sub sup : Method} {x : Diagnostic}
    (h : x ∈ methodViolations p w pair sub sup) : pair.IsBreach x := by
  unfold methodViolations at h
  simp only [List.mem_append] at h
  rcases h with (h | h) | h
  · exact isBreach_of_mem_parameterListViolations h
  · exact ⟨_, _, _, by decide, eq_of_mem_reportIf h⟩
  · split at h
    · exact ⟨_, _, _, by decide, List.mem_singleton.1 h⟩
    · exact absurd h List.not_mem_nil

/-- Whatever is wrong with a pair, it is said by a report on the pair
that names the rule of the contract. -/
theorem isBreach_of_mem_violations {x : Diagnostic} (h : x ∈ pair.violations p w) :
    pair.IsBreach x := by
  unfold violations at h
  split at h
  · rcases List.mem_append.1 h with h | h
    · exact ⟨_, _, _, by decide, eq_of_mem_reportIf h⟩
    · exact isBreach_of_mem_propertyViolations h
  · rcases List.mem_append.1 h with h | h
    · exact ⟨_, _, _, by decide, eq_of_mem_reportIf h⟩
    · exact isBreach_of_mem_methodViolations h
  · exact ⟨_, _, _, by decide, List.mem_singleton.1 h⟩

theorem isReport_of_mem_violations {x : Diagnostic} (h : x ∈ pair.violations p w) :
    pair.IsReport x := by
  obtain ⟨rule, args, reasons, hrule, rfl⟩ := isBreach_of_mem_violations h
  exact ⟨rule, args, reasons, Rule.severity_of_mem_breaches hrule, rfl⟩

/-- The notes of a report: the overridden declaration, and at most eight
reasons. -/
theorem length_related_report_le (pair : OverridePair) (rule : Rule) (args : List String)
    (reasons : List Reason) : (pair.report rule args reasons).related.length ≤ 9 := by
  have htake : (reasons.take maxReasons).length ≤ 8 := List.length_take_le _ _
  show (pair.declarationNote :: (reasons.take maxReasons).map _).length ≤ 9
  rw [List.length_cons, List.length_map]
  omega

/-- A pair that breaks its contract is reported, if its two members have
one name. -/
theorem reported_of_not_kept (hname : pair.overridden.name = pair.member.name)
    (h : ¬ pair.Kept p w) : pair.Reported (pair.violations p w) where
  ne_nil hnil := h (violations_eq_nil_iff.1 hnil)
  isError x hx := by
    obtain ⟨rule, args, reasons, hrule, rfl⟩ := isReport_of_mem_violations hx
    show decide (rule.severity = .error) = true
    simp [hrule]
  location x hx := by
    obtain ⟨rule, args, reasons, -, rfl⟩ := isReport_of_mem_violations hx
    rfl
  points x hx := by
    obtain ⟨rule, args, reasons, -, rfl⟩ := isReport_of_mem_violations hx
    refine ⟨_, _, rfl, ?_⟩
    show pair.ownerFqn ++ "#" ++ pair.overridden.name = _
    rw [hname]
  bounded x hx := by
    obtain ⟨rule, args, reasons, -, rfl⟩ := isReport_of_mem_violations hx
    exact length_related_report_le pair rule args reasons

end OverridePair

namespace Audit

open OverridePair

variable {p : Policy} {w : World} {d : TypeDef} {declaredOn : DeclaringKind} {a : Ancestors}

/-- What is declared under a name above a definition: first by the
nearest base class that has the name, then by the interfaces that have
it. -/
def declarations (a : Ancestors) (name : String) : List (String × Member × Origin) :=
  (a.bases.findSome? fun b => (b.member? name).map (b.fqn, ·, Origin.baseClass)).toList
    ++ a.interfaces.filterMap fun i => (i.member? name).map (i.fqn, ·, Origin.interface)

/-- A member with each declaration of its name above the definition. -/
def memberPairs (d : TypeDef) (declaredOn : DeclaringKind) (a : Ancestors) (m : Member) :
    List OverridePair :=
  (declarations a m.name).map fun (ownerFqn, overridden, origin) =>
    { typeFqn := d.fqn, member := m, ownerFqn, overridden, origin, declaredOn }

/-- All pairs of a definition, member by member. -/
def allPairs (d : TypeDef) (declaredOn : DeclaringKind) (a : Ancestors) : List OverridePair :=
  d.members.flatMap (memberPairs d declaredOn a)

/-- The first class that has the name, and what it declares. -/
theorem bind_baseDeclaring? (bases : List ClassDef) (name : String) :
    ((bases.find? fun c => (c.member? name).isSome).bind fun base =>
        (base.member? name).map fun m => (base.fqn, m, Origin.baseClass))
      = bases.findSome? fun b => (b.member? name).map (b.fqn, ·, Origin.baseClass) := by
  induction bases with
  | nil => rfl
  | cons b bases ih =>
    rw [List.find?_cons, List.findSome?_cons]
    cases hb : b.member? name with
    | none => simpa [hb] using ih
    | some m => simp [hb]

/-- Looking for the interfaces that have the name changes nothing about
what is found in them. -/
theorem filterMap_interfacesDeclaring (interfaces : List InterfaceDef) (name : String) :
    ((interfaces.filter fun i => (i.member? name).isSome).filterMap fun i =>
        (i.member? name).map fun m => (i.fqn, m, Origin.interface))
      = interfaces.filterMap fun i => (i.member? name).map (i.fqn, ·, Origin.interface) := by
  rw [List.filterMap_filter]
  congr 1
  funext i
  cases i.member? name <;> simp

/-- An audit compares a member with what is declared above it. -/
theorem pairs_eq_memberPairs (m : Member) :
    pairs d declaredOn a m = memberPairs d declaredOn a m := by
  unfold pairs memberPairs overridden declarations
  rw [Ancestors.baseDeclaring?, bind_baseDeclaring?, Ancestors.interfacesDeclaring,
    filterMap_interfacesDeclaring]

/-- The two members of a pair have one name. -/
theorem name_overridden_of_mem_memberPairs {m : Member} {pair : OverridePair}
    (h : pair ∈ memberPairs d declaredOn a m) : pair.overridden.name = pair.member.name := by
  unfold memberPairs declarations at h
  obtain ⟨⟨owner, o, origin⟩, hmem, rfl⟩ := List.mem_map.1 h
  show o.name = m.name
  rcases List.mem_append.1 hmem with hmem | hmem
  · obtain ⟨b, -, hb⟩ := List.exists_of_findSome?_eq_some (Option.mem_toList.1 hmem)
    obtain ⟨o', ho, heq⟩ := Option.map_eq_some_iff.1 hb
    cases heq
    exact (Member.mem_listOf_of_find? ho).2
  · obtain ⟨i, -, hi⟩ := List.mem_filterMap.1 hmem
    obtain ⟨o', ho, heq⟩ := Option.map_eq_some_iff.1 hi
    cases heq
    exact (Member.mem_listOf_of_find? ho).2

theorem checkMember_diagnostics (m : Member) :
    (checkMember p w d declaredOn a m).diagnostics
      = memberDiagnostics w d.fqn m
        ++ (memberPairs d declaredOn a m).flatMap (·.violations p w) := by
  simp only [checkMember, Findings.diagnostics_append, Findings.diagnostics_concat,
    List.flatMap_map, findings_diagnostics, pairs_eq_memberPairs]

/-- One record for each element of a list that has the property. -/
theorem flatMap_ite_singleton {α β : Type} (q : α → Prop) [DecidablePred q] (f : α → β) :
    ∀ l : List α, (l.flatMap fun x => if q x then [f x] else []) = (l.filter (q ·)).map f
  | [] => rfl
  | x :: l => by
    have ih := flatMap_ite_singleton q f l
    by_cases hx : q x
    · simp [hx, ih]
    · simp [hx, ih]

theorem checkMember_overrides (m : Member) :
    (checkMember p w d declaredOn a m).overrides
      = ((memberPairs d declaredOn a m).filter (Kept p w ·)).map recorded := by
  simp only [checkMember, Findings.overrides_append, Findings.overrides_concat, List.flatMap_map,
    findings_overrides, pairs_eq_memberPairs, flatMap_ite_singleton, List.nil_append]

/-- Every pair of a class or an interface has exactly one outcome. The
recorded overrides are the records of the pairs that keep their
contract, in the order of the pairs. The diagnostics are, behind those
about the ancestors, for each member those about its types and then one
block for each of its pairs. The block of a pair that keeps its
contract is empty, and that of any other pair is a report. -/
theorem checkType_outcomes (p : Policy) (w : World) (d : TypeDef) (declaredOn : DeclaringKind)
    (hkind : declaringKind? d = some declaredOn) :
    (checkType p w d).overrides
      = ((allPairs d declaredOn (Ancestors.collect w d)).filter (Kept p w ·)).map recorded ∧
    (checkType p w d).diagnostics
      = ancestorDiagnostics d.fqn (Ancestors.collect w d)
        ++ d.members.flatMap (fun m => memberDiagnostics w d.fqn m
          ++ (memberPairs d declaredOn (Ancestors.collect w d) m).flatMap (·.violations p w)) ∧
    ∀ pair ∈ allPairs d declaredOn (Ancestors.collect w d),
      pair.Kept p w ∧ pair.violations p w = [] ∨
      ¬ pair.Kept p w ∧ pair.Reported (pair.violations p w) := by
  refine ⟨?_, ?_, fun pair hpair => ?_⟩
  · simp only [checkType, hkind, Findings.overrides_append, Findings.overrides_concat,
      List.flatMap_map, checkMember_overrides, List.nil_append, allPairs, List.filter_flatMap,
      List.map_flatMap]
  · simp only [checkType, hkind, Findings.diagnostics_append, Findings.diagnostics_concat,
      List.flatMap_map, checkMember_diagnostics]
  · obtain ⟨m, -, hpair⟩ := List.mem_flatMap.1 hpair
    by_cases hkept : pair.Kept p w
    · exact .inl ⟨hkept, violations_eq_nil_iff.2 hkept⟩
    · exact .inr ⟨hkept, reported_of_not_kept (name_overridden_of_mem_memberPairs hpair) hkept⟩

/-- A place that narrows what it takes in, and takes its key from the
caller as well. -/
def kennel : ClassDef where
  fqn := "pet.Kennel"
  base := some "pet.House"
  interfaces := ["pet.Place"]
  properties := [{ name := "guest", type := .named "pet.Dog", immutable := true }]
  methods := [{ name := "unlock", parameters := [{ name := "key", type := .primitive .string }] }]

/-- The kennel overrides the guest of a house and that of a place, and
the way in of a house. -/
def kennels : Assembly where
  name := "pet"
  types := [
    ("pet.Kennel", .class kennel),
    ("pet.House", .class {
      fqn := "pet.House"
      properties := [{ name := "guest", type := .named "pet.Animal", immutable := true }]
      methods := [{ name := "unlock" }] }),
    ("pet.Place", .interface {
      fqn := "pet.Place"
      properties := [{ name := "guest", type := .named "pet.Animal", immutable := true }] }),
    ("pet.Animal", .class { fqn := "pet.Animal" }),
    ("pet.Dog", .class { fqn := "pet.Dog", base := some "pet.Animal" })]

/-- Of the three pairs of the kennel one is recorded, as a narrowing,
and the other two are reported. -/
theorem checkType_outcomes_kennels :
    (checkType {} (World.of kennels []) (.class kennel)).overrides
      = [⟨"pet.Kennel", "guest", "pet.House", true⟩] ∧
    (allPairs (.class kennel) .classMember
      (Ancestors.collect (World.of kennels []) (.class kennel))).map (·.ownerFqn)
      = ["pet.House", "pet.Place", "pet.House"] ∧
    ∀ pair ∈ allPairs (.class kennel) .classMember
        (Ancestors.collect (World.of kennels []) (.class kennel)),
      pair.recorded ≠ ⟨"pet.Kennel", "guest", "pet.House", true⟩ →
      pair.Reported (pair.violations {} (World.of kennels [])) := by
  obtain ⟨hoverrides, -, houtcome⟩ :=
    checkType_outcomes {} (World.of kennels []) (.class kennel) .classMember rfl
  refine ⟨hoverrides.trans (by decide +kernel), by decide +kernel, fun pair hpair hother => ?_⟩
  have hbroken : ¬ pair.Kept {} (World.of kennels []) := by
    revert pair
    decide +kernel
  exact ((houtcome pair hpair).resolve_left fun h => hbroken h.1).2

end Audit

end OverrideCheck
