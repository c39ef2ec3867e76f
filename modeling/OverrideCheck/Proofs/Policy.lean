import OverrideCheck.Proofs.Audit.Contract
import OverrideCheck.Proofs.Narrowing.Order
import OverrideCheck.Proofs.Narrowing.Truth

/-!
# `OverrideCheck.Proofs.Policy`: the policy against the narrowing

A policy decides about two types on top of the narrowing, and it has a
shortcut in front of it: equal types pass before anybody asks. This
module says how far the two decisions can be apart.

`Policy.Judged` is what a comparison can come to. There are three
outcomes, and each has its condition (`judged_check`). Everything else
is read off them.

* A rejection repeats the reasons of the narrowing, and these are empty
  exactly for what is allowed (`reasons_explain_eq_nil_iff`). So a
  rejection without reasons is one that only the site is to blame for.
* The policy is more generous than the narrowing in one case only. The
  narrowing asks for well formed references before it compares them,
  and the policy does not, so two equal references that are not well
  formed pass (`accepted_and_refused_iff`). Void is never such a case.
-/

set_option autoImplicit false

namespace OverrideCheck

namespace Policy

/-- What a comparison comes to, and when. -/
inductive Judged (p : Policy) (w : World) (site : Site) (sub sup : Option TypeRef) :
    Verdict → Prop where
  | identical (heq : sub = sup) : Judged p w site sub sup .identical
  | narrowed (hne : sub ≠ sup) (hrule : p.ruleFor site = .covariant)
      (hallowed : isAllowed w sub sup = true) : Judged p w site sub sup .covariantNarrowing
  | rejected (hne : sub ≠ sup) (h : p.ruleFor site = .exact ∨ isAllowed w sub sup = false) :
      Judged p w site sub sup (.rejected (p.ruleFor site) (explain w sub sup).reasons)

variable {p : Policy} {w : World} {site : Site} {sub sup : Option TypeRef}

theorem judged_check (p : Policy) (w : World) (site : Site) (sub sup : Option TypeRef) :
    Judged p w site sub sup (p.check w site sub sup) := by
  by_cases heq : sub = sup
  · rw [check, if_pos heq]
    exact .identical heq
  · rw [check, if_neg heq]
    dsimp only
    rw [allowed_explain]
    have hrejected (h : p.ruleFor site = .exact ∨ isAllowed w sub sup = false) :
        Judged p w site sub sup (.rejected (p.ruleFor site) (explain w sub sup).reasons) :=
      .rejected heq h
    cases hrule : p.ruleFor site with
    | exact =>
      rw [hrule] at hrejected
      exact hrejected (.inl rfl)
    | covariant =>
      cases hallowed : isAllowed w sub sup with
      | true => exact .narrowed heq hrule hallowed
      | false =>
        rw [hrule] at hrejected
        exact hrejected (.inr hallowed)

/-- A verdict of narrowing is given for two different types, if the site
may be narrowed and the one type narrows the other. -/
theorem check_eq_covariantNarrowing_iff :
    p.check w site sub sup = .covariantNarrowing ↔
      sub ≠ sup ∧ p.ruleFor site = .covariant ∧ isAllowed w sub sup = true := by
  have judged := judged_check p w site sub sup
  constructor
  · intro h
    rw [h] at judged
    cases judged with
    | narrowed hne hrule hallowed => exact ⟨hne, hrule, hallowed⟩
  · rintro ⟨hne, hrule, hallowed⟩
    generalize p.check w site sub sup = verdict at judged
    cases judged with
    | identical heq => exact absurd heq hne
    | narrowed => rfl
    | rejected _ h => simp [hrule, hallowed] at h

/-- A rejection names the rule of the site. It has no reasons exactly if
the site asks for equal types and the narrowing as such is allowed. -/
theorem rule_and_reasons_of_rejected {rule : VarianceRule} {reasons : List Reason}
    (h : p.check w site sub sup = .rejected rule reasons) :
    rule = p.ruleFor site ∧
      (reasons = [] ↔ p.ruleFor site = .exact ∧ isAllowed w sub sup = true) := by
  have judged := judged_check p w site sub sup
  rw [h] at judged
  cases judged with
  | rejected _ hcause =>
    refine ⟨rfl, reasons_explain_eq_nil_iff.trans ⟨fun hallowed => ?_, And.right⟩⟩
    exact ⟨hcause.resolve_right (by simp [hallowed]), hallowed⟩

/-- The policy accepts what the narrowing refuses only where a reference
that is not well formed is repeated. -/
theorem accepted_and_refused_iff :
    (p.check w site sub sup).isAccepted = true ∧ isAllowed w sub sup = false ↔
      ∃ t : TypeRef, sub = some t ∧ sup = some t ∧ t.Degenerate := by
  constructor
  · rintro ⟨haccepted, hrefused⟩
    rcases isAccepted_check_iff.1 haccepted with rfl | ⟨-, hallowed⟩
    · cases sub with
      | none =>
        rw [isAllowed_void] at hrefused
        cases hrefused
      | some t =>
        rw [isAllowed_self] at hrefused
        exact ⟨t, rfl, rfl, TypeRef.wellFormed_eq_false_iff.1 hrefused⟩
    · rw [hrefused] at hallowed
      cases hallowed
  · rintro ⟨t, rfl, rfl, hdegenerate⟩
    refine ⟨isAccepted_check_iff.2 (.inl rfl), ?_⟩
    rw [isAllowed_self]
    exact TypeRef.wellFormed_eq_false_iff.2 hdegenerate

/-- How the policy and the narrowing decide about two types. The policy
accepts them if they are equal, or if the narrowing allows them and the
site may be narrowed. It speaks of a narrowing only for types that
differ and that the narrowing allows. A rejection is by the rule of the
site, and it has no reasons exactly if that rule asks for equal types
and the narrowing allows them. What the policy accepts and the narrowing
refuses is a reference beside itself in which some union or
intersection has fewer than two arms, and nothing else. -/
theorem check_against_narrowing (p : Policy) (w : World) (site : Site) (sub sup : Option TypeRef) :
    ((p.check w site sub sup).isAccepted = true ↔
      sub = sup ∨ isAllowed w sub sup = true ∧ p.ruleFor site = .covariant) ∧
    (p.check w site sub sup = .covariantNarrowing → sub ≠ sup ∧ isAllowed w sub sup = true) ∧
    (∀ rule reasons, p.check w site sub sup = .rejected rule reasons →
      rule = p.ruleFor site ∧
        (reasons = [] ↔ p.ruleFor site = .exact ∧ isAllowed w sub sup = true)) ∧
    ((p.check w site sub sup).isAccepted = true ∧ isAllowed w sub sup = false ↔
      ∃ t : TypeRef, sub = some t ∧ sup = some t ∧ t.Degenerate) := by
  refine ⟨?_, fun hnarrowed => ?_, fun _ _ => rule_and_reasons_of_rejected,
    accepted_and_refused_iff⟩
  · rw [isAccepted_check_iff, and_comm]
  · obtain ⟨hne, -, hallowed⟩ := check_eq_covariantNarrowing_iff.1 hnarrowed
    exact ⟨hne, hallowed⟩

/-- The result of a method, which overrides that of a base class. -/
def resultSite : Site where
  position := .methodReturn
  immutable := true
  isStatic := false
  origin := .baseClass
  declaredOn := .classMember

/-- A result may be narrowed from an animal to a dog. A parameter may
not, and there is no reason but the site. The other way round is
refused with reasons. An array of unions of one arm passes in the place
of itself, although it may not stand in for itself. -/
theorem check_against_narrowing_pets :
    let w := World.of orderedPets []
    let dog : Option TypeRef := some (.named "pet.Dog")
    let animal : Option TypeRef := some (.named "pet.Animal")
    let loneArms : TypeRef := .array (.union [.named "pet.Dog"])
    (Policy.check {} w resultSite dog animal).isAccepted = true ∧
    (∃ reasons, Policy.check {} w { resultSite with position := .methodParameter } dog animal
        = .rejected .exact reasons ∧ reasons = []) ∧
    (∃ reasons, Policy.check {} w resultSite animal dog = .rejected .covariant reasons ∧
      reasons ≠ []) ∧
    ((Policy.check {} w resultSite (some loneArms) (some loneArms)).isAccepted = true ∧
      isAllowed w (some loneArms) (some loneArms) = false) := by
  intro w dog animal loneArms
  have hallowed : isAllowed w dog animal = true := by decide +kernel
  have hlone : loneArms.Degenerate := .element (.union (by decide))
  obtain ⟨haccepted, -, -, -⟩ := check_against_narrowing {} w resultSite dog animal
  obtain ⟨-, -, hparameter, -⟩ := check_against_narrowing {} w
    { resultSite with position := .methodParameter } dog animal
  obtain ⟨-, -, hbackwards, -⟩ := check_against_narrowing {} w resultSite animal dog
  obtain ⟨-, -, -, hequal⟩ := check_against_narrowing {} w resultSite (some loneArms) (some loneArms)
  refine ⟨haccepted.2 (.inr ⟨hallowed, rfl⟩), ?_, ?_, hequal.2 ⟨loneArms, rfl, rfl, hlone⟩⟩
  · exact ⟨_, rfl, (hparameter _ _ rfl).2.2 ⟨rfl, hallowed⟩⟩
  · have hrejected : Policy.check {} w resultSite animal dog
        = .rejected .covariant (explain w animal dog).reasons := by decide +kernel
    refine ⟨_, hrejected, fun hnil => ?_⟩
    have hexact := ((hbackwards _ _ hrejected).2.1 hnil).1
    cases hexact

end Policy

end OverrideCheck
