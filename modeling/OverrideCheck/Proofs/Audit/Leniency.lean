import Mathlib.Data.List.Flatten
import OverrideCheck.Proofs.Audit.Outcome

/-!
# `OverrideCheck.Proofs.Audit.Leniency`: two policies over one assembly

A policy may let members of interfaces narrow their types, or not. This
module compares the two audits of one assembly: `Policy.lenient` allows
it, `Policy.strict` does not.

One comparison of types comes out the same way under both, except where
the policy is the only thing that stands against a narrowing
(`Policy.check_cases`). So what the strict audit says about a pair is
what the lenient one says, or that and one report more, at the end: on
the type of the property or of the result (`violations_cases`). A pair
that the strict audit records is recorded by the lenient one, word for
word (`findings_overrides_sublist`).

`Thinned P` carries this through the loops of an audit. It relates a
list to one in which elements are left out, all of which have the
property `P`. The comparison of whole audits is
`checkAssembly_lenient_strict`.
-/

set_option autoImplicit false

namespace OverrideCheck

/-- The second list is the first one with some elements left out, and
all of these have the property. -/
inductive Thinned {α : Type} (P : α → Prop) : List α → List α → Prop where
  | nil : Thinned P [] []
  | keep (x : α) {l l' : List α} (h : Thinned P l l') : Thinned P (x :: l) (x :: l')
  | drop (x : α) {l l' : List α} (hx : P x) (h : Thinned P l l') : Thinned P (x :: l) l'

namespace Thinned

variable {α β : Type} {P : α → Prop}

theorem refl : ∀ l : List α, Thinned P l l
  | [] => .nil
  | x :: l => .keep x (refl l)

theorem append {k k' l l' : List α} (h : Thinned P k k') (hl : Thinned P l l') :
    Thinned P (k ++ l) (k' ++ l') := by
  induction h with
  | nil => exact hl
  | keep x _ ih => exact .keep x ih
  | drop x hx _ ih => exact .drop x hx ih

theorem flatMap {f g : β → List α} :
    ∀ {bs : List β}, (∀ b ∈ bs, Thinned P (f b) (g b)) → Thinned P (bs.flatMap f) (bs.flatMap g)
  | [], _ => .nil
  | b :: bs, h => by
    have first := h b List.mem_cons_self
    have rest := flatMap fun b hb => h b (List.mem_cons_of_mem _ hb)
    exact first.append rest

theorem imp {Q : α → Prop} {l l' : List α} (h : Thinned P l l') (hPQ : ∀ x, P x → Q x) :
    Thinned Q l l' := by
  induction h with
  | nil => exact .nil
  | keep x _ ih => exact .keep x ih
  | drop x hx _ ih => exact .drop x (hPQ x hx) ih

theorem sublist {l l' : List α} (h : Thinned P l l') : l'.Sublist l := by
  induction h with
  | nil => exact .slnil
  | keep x _ ih => exact ih.cons_cons x
  | drop x _ _ ih => exact ih.cons x

/-- The elements that were left out, each as often as it was. -/
theorem exists_perm {l l' : List α} (h : Thinned P l l') :
    ∃ extra, l.Perm (l' ++ extra) ∧ ∀ x ∈ extra, P x := by
  induction h with
  | nil => exact ⟨[], .nil, nofun⟩
  | keep x _ ih =>
    obtain ⟨extra, hperm, hextra⟩ := ih
    exact ⟨extra, hperm.cons x, hextra⟩
  | drop x hx _ ih =>
    obtain ⟨extra, hperm, hextra⟩ := ih
    exact ⟨x :: extra, (hperm.cons x).trans List.perm_middle.symm,
      List.forall_mem_cons.2 ⟨hx, hextra⟩⟩

end Thinned

namespace Policy

/-- Members of interfaces may not be narrowed. -/
def strict : Policy := { allowInterfaceCovariance := false }

/-- Members of interfaces may be narrowed. -/
def lenient : Policy := { allowInterfaceCovariance := true }

/-- A parameter has to repeat its type, whatever the policy. -/
theorem ruleFor_methodParameter {p : Policy} {site : Site}
    (h : site.position = .methodParameter) : p.ruleFor site = .exact := by
  simp [ruleFor, h]

/-- The two policies have one rule for a site, unless the site involves
an interface and nothing but that. -/
theorem ruleFor_cases (site : Site) :
    strict.ruleFor site = lenient.ruleFor site ∨
    (site.origin = .interface ∨ site.declaredOn = .interfaceMember) ∧
      strict.ruleFor site = .exact ∧ lenient.ruleFor site = .covariant := by
  by_cases hfixed : site.position = .methodParameter ∨ !site.immutable ∨ site.isStatic
  · left
    rw [ruleFor, ruleFor, if_pos hfixed, if_pos hfixed]
  · by_cases hinterface : site.origin = .interface ∨ site.declaredOn = .interfaceMember
    · right
      refine ⟨hinterface, ?_, ?_⟩
      · rw [ruleFor, if_neg hfixed, if_pos ⟨hinterface, rfl⟩]
      · rw [ruleFor, if_neg hfixed, if_neg fun h => Bool.noConfusion h.2]
    · left
      simp [ruleFor, hinterface]

/-- The two policies judge two types alike; or both refuse them, for the
same reasons; or the narrowing as such is allowed and only the strict
policy refuses it, without a reason, because an interface is
involved. -/
theorem check_cases (w : World) (site : Site) (sub sup : Option TypeRef) :
    strict.check w site sub sup = lenient.check w site sub sup ∨
    (∃ reasons, strict.check w site sub sup = .rejected .exact reasons ∧
      lenient.check w site sub sup = .rejected .covariant reasons) ∨
    (site.origin = .interface ∨ site.declaredOn = .interfaceMember) ∧
      isAllowed w sub sup = true ∧ strict.check w site sub sup = .rejected .exact [] ∧
      lenient.check w site sub sup = .covariantNarrowing := by
  by_cases heq : sub = sup
  · left
    simp [check, heq]
  rcases ruleFor_cases site with hrule | ⟨hinterface, hstrict, hlenient⟩
  · left
    simp [check, hrule]
  · right
    cases hallowed : isAllowed w sub sup with
    | false =>
      left
      refine ⟨(explain w sub sup).reasons, ?_, ?_⟩
      · simp [check, heq, hstrict]
      · simp [check, heq, hlenient, allowed_explain, hallowed]
    | true =>
      right
      refine ⟨hinterface, rfl, ?_, ?_⟩
      · simp [check, heq, hstrict, reasons_explain hallowed]
      · simp [check, heq, hlenient, allowed_explain, hallowed]

end Policy

namespace OverridePair

open Policy (strict lenient)

variable {w : World} {pair : OverridePair}

/-- The diagnostic is on the type of a property or of a result, in a
pair that involves an interface. The narrowing as such is allowed. -/
inductive InterfaceNarrowing (w : World) (pair : OverridePair) : Diagnostic → Prop where
  | property {sub sup : Property} (hsub : pair.member = .property sub)
      (hsup : pair.overridden = .property sup)
      (hinterface : pair.origin = .interface ∨ pair.declaredOn = .interfaceMember)
      (hallowed : isAllowed w (some sub.type) (some sup.type) = true) :
      InterfaceNarrowing w pair (pair.report .propertyTypeNotCompatible
        [sub.type.render, pair.location, sup.type.render, pair.overriddenLocation])
  | result {sub sup : Method} (hsub : pair.member = .method sub)
      (hsup : pair.overridden = .method sup)
      (hinterface : pair.origin = .interface ∨ pair.declaredOn = .interfaceMember)
      (hallowed : isAllowed w sub.returnType sup.returnType = true) :
      InterfaceNarrowing w pair (pair.report .returnTypeNotCompatible
        [TypeRef.renderOptional sub.returnType, pair.location,
          TypeRef.renderOptional sup.returnType, pair.overriddenLocation])

theorem propertyViolations_cases {sub sup : Property} (hsub : pair.member = .property sub)
    (hsup : pair.overridden = .property sup) :
    propertyViolations strict w pair sub sup = propertyViolations lenient w pair sub sup ∨
    ∃ x, pair.InterfaceNarrowing w x ∧
      propertyViolations strict w pair sub sup
        = propertyViolations lenient w pair sub sup ++ [x] := by
  unfold propertyViolations propertyVerdict
  dsimp only
  rcases Policy.check_cases w (pair.site .propertyRead sub.immutable sub.isStatic)
    (some sub.type) (some sup.type) with
    heq | ⟨reasons, hstrict, hlenient⟩ | ⟨hinterface, hallowed, hstrict, hlenient⟩
  · left
    rw [heq]
  · left
    rw [hstrict, hlenient]
  · right
    refine ⟨_, .property hsub hsup hinterface hallowed, ?_⟩
    rw [hstrict, hlenient, List.append_nil]

/-- The parameters of a method are judged alike under all policies. -/
theorem parameterListViolations_congr (p q : Policy) (w : World) (pair : OverridePair)
    (sub sup : Method) :
    parameterListViolations p w pair sub sup = parameterListViolations q w pair sub sup := by
  have hverdict (a b : Parameter) :
      parameterVerdict p w pair sub a b = parameterVerdict q w pair sub a b := by
    simp [parameterVerdict, Policy.check, Policy.ruleFor_methodParameter, site]
  simp only [parameterListViolations, parameterViolations, hverdict]

theorem methodViolations_cases {sub sup : Method} (hsub : pair.member = .method sub)
    (hsup : pair.overridden = .method sup) :
    methodViolations strict w pair sub sup = methodViolations lenient w pair sub sup ∨
    ∃ x, pair.InterfaceNarrowing w x ∧
      methodViolations strict w pair sub sup = methodViolations lenient w pair sub sup ++ [x] := by
  unfold methodViolations returnVerdict
  rw [parameterListViolations_congr strict lenient]
  rcases Policy.check_cases w (pair.site .methodReturn true sub.isStatic)
    sub.returnType sup.returnType with
    heq | ⟨reasons, hstrict, hlenient⟩ | ⟨hinterface, hallowed, hstrict, hlenient⟩
  · left
    rw [heq]
  · left
    rw [hstrict, hlenient]
  · right
    refine ⟨_, .result hsub hsup hinterface hallowed, ?_⟩
    rw [hstrict, hlenient, List.append_nil]

/-- The strict policy reports the same about a pair as the lenient one,
or one narrowing more. -/
theorem violations_cases (w : World) (pair : OverridePair) :
    pair.violations strict w = pair.violations lenient w ∨
    ∃ x, pair.InterfaceNarrowing w x ∧
      pair.violations strict w = pair.violations lenient w ++ [x] := by
  unfold violations
  split
  · next sub sup hsub hsup =>
    rcases propertyViolations_cases (w := w) hsub hsup with heq | ⟨x, hx, heq⟩
    · left
      rw [heq]
    · right
      exact ⟨x, hx, by rw [heq, List.append_assoc]⟩
  · next sub sup hsub hsup =>
    rcases methodViolations_cases (w := w) hsub hsup with heq | ⟨x, hx, heq⟩
    · left
      rw [heq]
    · right
      exact ⟨x, hx, by rw [heq, List.append_assoc]⟩
  · left
    rfl

theorem thinned_violations (w : World) (pair : OverridePair) :
    Thinned (pair.InterfaceNarrowing w) (pair.violations strict w) (pair.violations lenient w) := by
  rcases violations_cases w pair with heq | ⟨x, hx, heq⟩
  · rw [heq]
    exact .refl _
  · rw [heq]
    have last : Thinned (pair.InterfaceNarrowing w) [x] [] := .drop x hx .nil
    simpa using (Thinned.refl (pair.violations lenient w)).append last

/-- What the strict policy lets pass, the lenient one does, too. -/
theorem Kept.lenient (h : pair.Kept strict w) : pair.Kept lenient w :=
  Contract.imp h fun hpermits => .inr ⟨.inl rfl, hpermits.2⟩

/-- A pair that the strict policy records is recorded by the lenient one
in the same way. -/
theorem findings_overrides_sublist (w : World) (pair : OverridePair) :
    (pair.findings strict w).overrides.Sublist (pair.findings lenient w).overrides := by
  rw [findings_overrides, findings_overrides]
  by_cases hkept : pair.Kept strict w
  · rw [if_pos hkept, if_pos hkept.lenient]
  · rw [if_neg hkept]
    exact List.nil_sublist _

end OverridePair

namespace Audit

open Policy (strict lenient)

variable {w : World} {d : TypeDef}

theorem thinned_checkType (w : World) (d : TypeDef) :
    Thinned
      (fun x => ∃ kind, declaringKind? d = some kind ∧
        ∃ pair ∈ allPairs d kind (Ancestors.collect w d), pair.InterfaceNarrowing w x)
      (checkType strict w d).diagnostics (checkType lenient w d).diagnostics := by
  unfold checkType
  split
  · exact .nil
  · next kind hkind =>
    simp only [Findings.diagnostics_append, Findings.diagnostics_concat, List.flatMap_map]
    refine (Thinned.refl _).append (Thinned.flatMap fun m hm => ?_)
    rw [checkMember_diagnostics, checkMember_diagnostics]
    refine (Thinned.refl _).append (Thinned.flatMap fun pair hpair => ?_)
    refine (OverridePair.thinned_violations w pair).imp fun x hx => ?_
    exact ⟨kind, hkind, pair, List.mem_flatMap.2 ⟨m, hm, hpair⟩, hx⟩

theorem checkType_overrides_sublist (w : World) (d : TypeDef) :
    (checkType strict w d).overrides.Sublist (checkType lenient w d).overrides := by
  unfold checkType
  split
  · exact .slnil
  · simp only [Findings.overrides_append, Findings.overrides_concat, List.flatMap_map,
      List.nil_append, checkMember]
    exact List.Sublist.flatMap_right _ fun m _ => List.Sublist.flatMap_right _ fun pair _ =>
      OverridePair.findings_overrides_sublist w pair

/-- Allowing interfaces to be narrowed only takes reports away and only
adds records. The diagnostics of the lenient audit are a sublist of
those of the strict one, and the records of the strict audit a sublist
of those of the lenient one. Each further diagnostic of the strict audit
is on the type of a property or of a result. It belongs to a pair of
the assembly in which the overridden declaration or the declaring type
is an interface, and the narrowing as such is allowed there. -/
theorem checkAssembly_lenient_strict (a : Assembly) (deps : Dependencies) :
    (checkAssembly lenient a deps).diagnostics.Sublist (checkAssembly strict a deps).diagnostics ∧
    (checkAssembly strict a deps).overrides.Sublist (checkAssembly lenient a deps).overrides ∧
    ∃ extra, (checkAssembly strict a deps).diagnostics.Perm
        ((checkAssembly lenient a deps).diagnostics ++ extra) ∧
      ∀ x ∈ extra, ∃ d ∈ a.definitions, ∃ kind, declaringKind? d = some kind ∧
        ∃ pair ∈ allPairs d kind (Ancestors.collect (World.of a deps) d),
          pair.InterfaceNarrowing (World.of a deps) x := by
  have hthinned : Thinned
      (fun x => ∃ d ∈ a.definitions, ∃ kind, declaringKind? d = some kind ∧
        ∃ pair ∈ allPairs d kind (Ancestors.collect (World.of a deps) d),
          pair.InterfaceNarrowing (World.of a deps) x)
      (checkAssembly strict a deps).diagnostics (checkAssembly lenient a deps).diagnostics := by
    simp only [checkAssembly, Findings.diagnostics_concat, List.flatMap_map]
    refine Thinned.flatMap fun d hd => ?_
    exact (thinned_checkType (World.of a deps) d).imp fun x hx => ⟨d, hd, hx⟩
  refine ⟨hthinned.sublist, ?_, hthinned.exists_perm⟩
  simp only [checkAssembly, Findings.overrides_concat, List.flatMap_map]
  exact List.Sublist.flatMap_right _ fun d _ => checkType_overrides_sublist (World.of a deps) d

end Audit

end OverrideCheck
