import Mathlib.Data.List.Forall2
import OverrideCheck.Audit

/-!
# `OverrideCheck.Proofs.Audit.Contract`: the contract of an override

An audit lists what is wrong with a pair of members, one diagnostic for
each thing. This module says when the list is empty.

`Contract narrows m o` is what a member `m` owes to the declaration `o`
that it overrides. The two are of one kind and both static or both not.
Properties agree on whether they may be absent and whether they can be
written. Methods agree on their parameters one by one and on whether a
result may be absent. The type of the property or of the result is
repeated, or narrowed. Narrowing is for members that are not static,
and for properties that can only be read.

The contract does not fix what narrowing is: `narrows` stands for it.
With `Policy.Permits` in its place the contract is what the audit
enforces (`violations_eq_nil_iff`). With a relation that is transitive
contracts compose (`Contract.trans`), and `Contract.imp` goes from one
relation to the other.
-/

set_option autoImplicit false

namespace OverrideCheck

/-- Two parameters agree in everything but their names. -/
structure Parameter.Agrees (a b : Parameter) : Prop where
  optional : a.optional = b.optional
  variadic : a.variadic = b.variadic
  type : a.type = b.type

/-- What an overriding member owes to the overridden one, if `narrows`
relates the types that may take the place of one another. -/
inductive Contract (narrows : Option TypeRef → Option TypeRef → Prop) : Member → Member → Prop where
  | property {sub sup : Property} (isStatic : sub.isStatic = sup.isStatic)
      (optional : sub.optional = sup.optional) (immutable : sub.immutable = sup.immutable)
      (type : sub.type = sup.type ∨
        sub.isStatic = false ∧ sub.immutable = true ∧ narrows (some sub.type) (some sup.type)) :
      Contract narrows (.property sub) (.property sup)
  | method {sub sup : Method} (isStatic : sub.isStatic = sup.isStatic)
      (parameters : List.Forall₂ Parameter.Agrees sub.parameters sup.parameters)
      (optional : ∀ a b, sub.returns = some a → sup.returns = some b → a.optional = b.optional)
      (type : sub.returnType = sup.returnType ∨
        sub.isStatic = false ∧ narrows sub.returnType sup.returnType) :
      Contract narrows (.method sub) (.method sup)

/-- The type that a member gives to those who use it: that of a
property, or that of a result. -/
def Member.outputType : Member → Option TypeRef
  | .property p => some p.type
  | .method m => m.returnType

theorem Parameter.Agrees.trans_list {as bs cs : List Parameter}
    (hab : List.Forall₂ Agrees as bs) (hbc : List.Forall₂ Agrees bs cs) :
    List.Forall₂ Agrees as cs := by
  induction hab generalizing cs with
  | nil => exact hbc
  | cons head _ ih =>
    cases hbc with
    | cons head' tail' =>
      refine .cons ⟨?_, ?_, ?_⟩ (ih tail')
      · exact head.optional.trans head'.optional
      · exact head.variadic.trans head'.variadic
      · exact head.type.trans head'.type

namespace Contract

variable {R S : Option TypeRef → Option TypeRef → Prop} {m o q : Member}

/-- A contract that is kept is kept in other words, too. Only the types
of the two members matter. -/
theorem imp (h : Contract R m o)
    (himp : R m.outputType o.outputType →
      m.outputType = o.outputType ∨ S m.outputType o.outputType) :
    Contract S m o := by
  cases h with
  | property isStatic optional immutable type =>
    refine .property isStatic optional immutable ?_
    rcases type with heq | ⟨hstatic, himmutable, hnarrows⟩
    · exact .inl heq
    · rcases himp hnarrows with heq | hS
      · exact .inl (Option.some.inj heq)
      · exact .inr ⟨hstatic, himmutable, hS⟩
  | method isStatic parameters optional type =>
    refine .method isStatic parameters optional ?_
    rcases type with heq | ⟨hstatic, hnarrows⟩
    · exact .inl heq
    · exact (himp hnarrows).imp_right fun hS => ⟨hstatic, hS⟩

/-- A declaration keeps the contract with itself. -/
theorem refl (R : Option TypeRef → Option TypeRef → Prop) (m : Member) : Contract R m m := by
  cases m with
  | property => exact .property rfl rfl rfl (.inl rfl)
  | method =>
    refine .method rfl (List.forall₂_same.2 fun a _ => ⟨rfl, rfl, rfl⟩) ?_ (.inl rfl)
    intro a b ha hb
    rw [ha] at hb
    cases hb
    rfl

/-- Contracts compose, if narrowings do. The result in the middle must
not be void when the other two are not, or nothing would tie together
whether those may be absent. -/
theorem trans (htrans : ∀ {a b c}, R a b → R b c → R a c)
    (hvoid : ∀ {a b}, R a b → a.isSome = b.isSome) (hmo : Contract R m o) (hoq : Contract R o q) :
    Contract R m q := by
  cases hmo with
  | property isStatic optional immutable type =>
    cases hoq with
    | property isStatic' optional' immutable' type' =>
      refine .property (isStatic.trans isStatic') (optional.trans optional')
        (immutable.trans immutable') ?_
      -- An equal type hands the other clause on, and two narrowings compose.
      rcases type with heq | ⟨hstatic, himmutable, hR⟩
      · rw [heq, isStatic, immutable]
        exact type'
      · rcases type' with heq' | ⟨-, -, hR'⟩
        · rw [← heq']
          exact .inr ⟨hstatic, himmutable, hR⟩
        · exact .inr ⟨hstatic, himmutable, htrans hR hR'⟩
  | @method sub mid isStatic parameters optional type =>
    cases hoq with
    | @method _ sup isStatic' parameters' optional' type' =>
      refine .method (isStatic.trans isStatic') (Parameter.Agrees.trans_list parameters parameters')
        ?_ ?_
      · intro a c ha hc
        -- The method in the middle has a result because the first one has.
        have hsome : sub.returnType.isSome = mid.returnType.isSome := by
          rcases type with heq | ⟨-, hR⟩
          · rw [heq]
          · exact hvoid hR
        obtain ⟨b, hb⟩ : ∃ b, mid.returns = some b := by
          rw [← Option.isSome_iff_exists]
          simpa [Method.returnType, ha] using hsome.symm
        exact (optional a b ha hb).trans (optional' b c hb hc)
      · rcases type with heq | ⟨hstatic, hR⟩
        · rw [heq, isStatic]
          exact type'
        · rcases type' with heq' | ⟨-, hR'⟩
          · rw [← heq']
            exact .inr ⟨hstatic, hR⟩
          · exact .inr ⟨hstatic, htrans hR hR'⟩

end Contract

namespace Policy

/-- Members of this kind may be narrowed against declarations of this
origin. -/
def Opens (p : Policy) (origin : Origin) (declaredOn : DeclaringKind) : Prop :=
  p.allowInterfaceCovariance = true ∨ origin = .baseClass ∧ declaredOn = .classMember

/-- One type may take the place of another: the policy is open to it,
and it narrows the other. -/
def Permits (p : Policy) (w : World) (origin : Origin) (declaredOn : DeclaringKind)
    (sub sup : Option TypeRef) : Prop :=
  p.Opens origin declaredOn ∧ isAllowed w sub sup = true

theorem ruleFor_eq_covariant_iff {p : Policy} {site : Site} :
    p.ruleFor site = .covariant ↔ site.position ≠ .methodParameter ∧ site.immutable = true ∧
      site.isStatic = false ∧ p.Opens site.origin site.declaredOn := by
  rcases site with ⟨position, immutable, isStatic, origin, declaredOn⟩
  simp only [ruleFor, Opens]
  cases position <;> cases immutable <;> cases isStatic <;> cases origin <;> cases declaredOn <;>
    simp

/-- A comparison passes if the types are equal, or if the site may be
narrowed and the one type narrows the other. -/
theorem isAccepted_check_iff {p : Policy} {w : World} {site : Site} {sub sup : Option TypeRef} :
    (p.check w site sub sup).isAccepted = true ↔
      sub = sup ∨ p.ruleFor site = .covariant ∧ isAllowed w sub sup = true := by
  unfold check
  by_cases heq : sub = sup
  · simp [heq, Verdict.isAccepted]
  · rw [if_neg heq]
    dsimp only
    rw [allowed_explain]
    cases p.ruleFor site <;> cases isAllowed w sub sup <;> simp [heq, Verdict.isAccepted]

end Policy

namespace OverridePair

variable {p : Policy} {w : World} {pair : OverridePair}

@[simp]
theorem reportIf_eq_nil {changed : Bool} {d : Diagnostic} :
    reportIf changed d = [] ↔ changed = false := by
  cases changed <;> simp [reportIf]

theorem staticViolations_eq_nil_iff :
    pair.staticViolations = [] ↔ pair.member.isStatic = pair.overridden.isStatic := by
  simp [staticViolations]

/-- A comparison within the pair passes if the types are equal, or if
neither the member nor the policy stands in the way of a narrowing. -/
theorem isAccepted_check_site_iff {position : Position} {immutable isStatic : Bool}
    {sub sup : Option TypeRef} :
    (p.check w (pair.site position immutable isStatic) sub sup).isAccepted = true ↔
      sub = sup ∨ position ≠ .methodParameter ∧ isStatic = false ∧ immutable = true ∧
        p.Permits w pair.origin pair.declaredOn sub sup := by
  rw [Policy.isAccepted_check_iff, Policy.ruleFor_eq_covariant_iff]
  refine or_congr_right ⟨?_, ?_⟩
  · rintro ⟨⟨hposition, himmutable, hstatic, hopens⟩, hallowed⟩
    exact ⟨hposition, hstatic, himmutable, hopens, hallowed⟩
  · rintro ⟨hposition, hstatic, himmutable, hopens, hallowed⟩
    exact ⟨⟨hposition, himmutable, hstatic, hopens⟩, hallowed⟩

theorem propertyVerdict_isAccepted_iff {sub sup : Property} :
    (propertyVerdict p w pair sub sup).isAccepted = true ↔
      sub.type = sup.type ∨ sub.isStatic = false ∧ sub.immutable = true ∧
        p.Permits w pair.origin pair.declaredOn (some sub.type) (some sup.type) := by
  simp [propertyVerdict, isAccepted_check_site_iff]

theorem returnVerdict_isAccepted_iff {sub sup : Method} :
    (returnVerdict p w pair sub sup).isAccepted = true ↔
      sub.returnType = sup.returnType ∨ sub.isStatic = false ∧
        p.Permits w pair.origin pair.declaredOn sub.returnType sup.returnType := by
  simp [returnVerdict, isAccepted_check_site_iff]

/-- A parameter is never narrowed. -/
theorem parameterVerdict_isAccepted_iff {sub : Method} {a b : Parameter} :
    (parameterVerdict p w pair sub a b).isAccepted = true ↔ a.type = b.type := by
  simp [parameterVerdict, isAccepted_check_site_iff]

theorem propertyViolations_eq_nil_iff {sub sup : Property} :
    propertyViolations p w pair sub sup = [] ↔
      sub.optional = sup.optional ∧ sub.immutable = sup.immutable ∧
      (sub.type = sup.type ∨ sub.isStatic = false ∧ sub.immutable = true ∧
        p.Permits w pair.origin pair.declaredOn (some sub.type) (some sup.type)) := by
  rw [← propertyVerdict_isAccepted_iff]
  unfold propertyViolations
  cases propertyVerdict p w pair sub sup <;> simp [Verdict.isAccepted]

theorem parameterViolations_eq_nil_iff {sub : Method} {a b : Parameter} :
    parameterViolations p w pair sub a b = [] ↔ a.Agrees b := by
  simp only [parameterViolations, List.append_eq_nil_iff, reportIf_eq_nil, bne_eq_false_iff_eq,
    Bool.not_eq_false', parameterVerdict_isAccepted_iff, and_assoc]
  exact ⟨fun ⟨optional, variadic, type⟩ => ⟨optional, variadic, type⟩,
    fun h => ⟨h.optional, h.variadic, h.type⟩⟩

theorem parameterListViolations_eq_nil_iff {sub sup : Method} :
    parameterListViolations p w pair sub sup = [] ↔
      List.Forall₂ Parameter.Agrees sub.parameters sup.parameters := by
  rw [List.forall₂_iff_zip]
  unfold parameterListViolations
  split
  · next hlength => simp [hlength]
  · next hlength =>
    -- With equally many parameters the zipped list has them all.
    have hlength : sub.parameters.length = sup.parameters.length := not_not.1 hlength
    simp only [List.flatMap_eq_nil_iff, Prod.forall, parameterViolations_eq_nil_iff, hlength,
      true_and]

theorem returnOptionalityChanged_eq_false_iff {sub sup : Method} :
    returnOptionalityChanged sub sup = false ↔
      ∀ a b, sub.returns = some a → sup.returns = some b → a.optional = b.optional := by
  unfold returnOptionalityChanged
  cases sub.returns <;> cases sup.returns <;> simp

theorem methodViolations_eq_nil_iff {sub sup : Method} :
    methodViolations p w pair sub sup = [] ↔
      List.Forall₂ Parameter.Agrees sub.parameters sup.parameters ∧
      (∀ a b, sub.returns = some a → sup.returns = some b → a.optional = b.optional) ∧
      (sub.returnType = sup.returnType ∨ sub.isStatic = false ∧
        p.Permits w pair.origin pair.declaredOn sub.returnType sup.returnType) := by
  rw [← returnOptionalityChanged_eq_false_iff, ← returnVerdict_isAccepted_iff]
  unfold methodViolations
  cases returnVerdict p w pair sub sup <;>
    simp [Verdict.isAccepted, parameterListViolations_eq_nil_iff]

/-- Nothing is wrong with a pair exactly if its contract is kept. -/
theorem violations_eq_nil_iff :
    pair.violations p w = [] ↔
      Contract (p.Permits w pair.origin pair.declaredOn) pair.member pair.overridden := by
  unfold violations
  split
  · next sub sup hsub hsup =>
    rw [List.append_eq_nil_iff, staticViolations_eq_nil_iff, propertyViolations_eq_nil_iff,
      hsub, hsup]
    constructor
    · rintro ⟨isStatic, optional, immutable, type⟩
      exact .property isStatic optional immutable type
    · intro h
      cases h with
      | property isStatic optional immutable type =>
        exact ⟨isStatic, optional, immutable, type⟩
  · next sub sup hsub hsup =>
    rw [List.append_eq_nil_iff, staticViolations_eq_nil_iff, methodViolations_eq_nil_iff,
      hsub, hsup]
    constructor
    · rintro ⟨isStatic, parameters, optional, type⟩
      exact .method isStatic parameters optional type
    · intro h
      cases h with
      | method isStatic parameters optional type =>
        exact ⟨isStatic, parameters, optional, type⟩
  · next sub sup hproperties hmethods =>
    -- A property and a method: reported, and without a contract.
    refine iff_of_false (List.cons_ne_nil _ _) fun h => ?_
    generalize pair.member = m at h hproperties hmethods
    generalize pair.overridden = o at h hproperties hmethods
    cases h with
    | property => exact hproperties _ _ rfl rfl
    | method => exact hmethods _ _ rfl rfl

/-- A pair is reported exactly if something is wrong with it. -/
theorem findings_diagnostics : (pair.findings p w).diagnostics = pair.violations p w := by
  unfold findings
  split
  · next h => rw [h]
  · rfl

end OverridePair

end OverrideCheck
