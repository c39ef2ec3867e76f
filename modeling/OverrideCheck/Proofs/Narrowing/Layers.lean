import Mathlib.Logic.Function.Iterate
import OverrideCheck.Proofs.Narrowing.Derivation
import OverrideCheck.Proofs.Narrowing.Reuse

/-!
# `OverrideCheck.Proofs.Narrowing.Layers`: the reasons for a refusal, layer by layer

A refusal comes with reasons, the outermost rule first. This module
says which reasons these are, in every world.

Before anything else both references have to be well formed, which is
a matter of what stands anywhere inside of them (`TypeRef.Degenerate`,
`wellFormed_eq_false_iff`). Then the array layers that both references
have are taken off, one after the other. `TypeRef.sharedLayers` counts
them, and `TypeRef.peel` is what is left inside. Each layer adds one
reason on top of those of the elements (`Reports.array`), so the reasons
of two references are one for each layer and then those of the pair
inside, as if that pair had been asked for alone
(`reports_of_layers`). Two things make this exact. The pair inside is
not two arrays, so the nesting counter is not looked at any more
(`blind_checkRef`); and the reasons are collected from the inside out,
with nothing collected on the way in. If there are more layers than the
counter grants, the descent ends at the first one too many
(`reports_of_too_many_layers`).

Of the reasons for the pair inside, `FirstReason` says which is the
first: the rules of the shapes in their order, and for two names the
rules of inheritance.
-/

set_option autoImplicit false

namespace OverrideCheck

namespace TypeRef

/-- Somewhere in the reference stands a union or an intersection of
fewer than two arms. -/
inductive Degenerate : TypeRef → Prop where
  | union {arms : List TypeRef} (h : arms.length < 2) : Degenerate (.union arms)
  | intersection {arms : List TypeRef} (h : arms.length < 2) : Degenerate (.intersection arms)
  | element {kind : CollectionKind} {element : TypeRef} (h : Degenerate element) :
      Degenerate (.collection kind element)
  | unionArm {arms : List TypeRef} {arm : TypeRef} (harm : arm ∈ arms) (h : Degenerate arm) :
      Degenerate (.union arms)
  | intersectionArm {arms : List TypeRef} {arm : TypeRef} (harm : arm ∈ arms)
      (h : Degenerate arm) : Degenerate (.intersection arms)

/-- How many array layers both references have around them. -/
def sharedLayers : TypeRef → TypeRef → Nat
  | .collection .array a, .collection .array b => sharedLayers a b + 1
  | _, _ => 0

/-- What is inside of this many array layers. -/
def peel : Nat → TypeRef → TypeRef
  | n + 1, .collection .array a => peel n a
  | _, t => t

/-- The outermost form of a reference. -/
inductive Form where
  | array
  | map
  | union
  | intersection
  | primitive
  | named
  deriving DecidableEq, Repr

/-- The form that the reference has. -/
def form : TypeRef → Form
  | .collection .array _ => .array
  | .collection .map _ => .map
  | .union _ => .union
  | .intersection _ => .intersection
  | .primitive _ => .primitive
  | .named _ => .named

/-- One of the two references has the form. -/
def Either (f : Form) (a b : TypeRef) : Prop := a.form = f ∨ b.form = f

instance (f : Form) (a b : TypeRef) : Decidable (Either f a b) :=
  inferInstanceAs (Decidable (a.form = f ∨ b.form = f))

mutual

theorem degenerate_of_wellFormed : ∀ {t : TypeRef}, t.wellFormed = false → t.Degenerate
  | .primitive _, h | .named _, h => by simp [wellFormed] at h
  | .collection _ element, h => .element (degenerate_of_wellFormed (t := element) h)
  | .union arms, h => by
    rw [wellFormed, Bool.and_eq_false_iff] at h
    rcases h with hfew | harms
    · exact .union (by simpa using hfew)
    · obtain ⟨arm, harm, hdegenerate⟩ := exists_degenerate_of_wellFormedArms arms harms
      exact .unionArm harm hdegenerate
  | .intersection arms, h => by
    rw [wellFormed, Bool.and_eq_false_iff] at h
    rcases h with hfew | harms
    · exact .intersection (by simpa using hfew)
    · obtain ⟨arm, harm, hdegenerate⟩ := exists_degenerate_of_wellFormedArms arms harms
      exact .intersectionArm harm hdegenerate

theorem exists_degenerate_of_wellFormedArms :
    ∀ arms : List TypeRef, wellFormedArms arms = false → ∃ arm ∈ arms, arm.Degenerate
  | [], h => by simp [wellFormedArms] at h
  | arm :: arms, h => by
    rw [wellFormedArms, Bool.and_eq_false_iff] at h
    rcases h with h | h
    · exact ⟨arm, List.mem_cons_self, degenerate_of_wellFormed h⟩
    · obtain ⟨other, hother, hdegenerate⟩ := exists_degenerate_of_wellFormedArms arms h
      exact ⟨other, List.mem_cons_of_mem _ hother, hdegenerate⟩

end

/-- A reference is well formed unless something in it has too few
arms. -/
theorem wellFormed_eq_false_iff {t : TypeRef} : t.wellFormed = false ↔ t.Degenerate := by
  refine ⟨degenerate_of_wellFormed, fun h => ?_⟩
  induction h with
  | union h | intersection h =>
    rw [wellFormed, Bool.and_eq_false_iff]
    exact .inl (by simpa using h)
  | element _ ih => exact ih
  | unionArm harm _ ih | intersectionArm harm _ ih =>
    rw [wellFormed, Bool.and_eq_false_iff, wellFormedArms_eq_all]
    exact .inr (List.all_eq_false.2 ⟨_, harm, by simp [ih]⟩)

theorem not_degenerate_iff {t : TypeRef} : ¬ t.Degenerate ↔ t.wellFormed = true := by
  rw [← wellFormed_eq_false_iff, Bool.not_eq_false]

@[simp]
theorem peel_zero (t : TypeRef) : t.peel 0 = t := by
  unfold peel
  rfl

theorem wellFormed_peel (n : Nat) (t : TypeRef) : (t.peel n).wellFormed = t.wellFormed := by
  fun_induction peel n t with
  | case1 n a ih => rw [ih, wellFormed]
  | case2 => rfl

/-- What is left has no array layer that both references share. -/
theorem sharedLayers_peel (sub sup : TypeRef) :
    sharedLayers (sub.peel (sharedLayers sub sup)) (sup.peel (sharedLayers sub sup)) = 0 := by
  fun_induction sharedLayers sub sup with
  | case1 a b ih => exact ih
  | case2 sub sup hshape =>
    rw [peel_zero, peel_zero]
    unfold sharedLayers
    split
    · exact absurd rfl (hshape _ _ rfl)
    · rfl

/-- Different references differ inside of the layers that they share. -/
theorem peel_ne {sub sup : TypeRef} (hne : sub ≠ sup) :
    sub.peel (sharedLayers sub sup) ≠ sup.peel (sharedLayers sub sup) := by
  fun_induction sharedLayers sub sup with
  | case1 a b ih => exact ih fun heq => hne (heq ▸ rfl)
  | case2 sub sup =>
    rw [peel_zero, peel_zero]
    exact hne

end TypeRef

namespace Checker

variable {w : World}

/-- The reasons that this many array layers add, the outermost first:
one for each pair of elements. -/
def elementMismatches (n : Nat) (sub sup : TypeRef) : List Reason :=
  (List.range n).map fun k => .arrayElementMismatch (sub.peel (k + 1)) (sup.peel (k + 1))

theorem elementMismatches_succ (n : Nat) (a b : TypeRef) :
    elementMismatches (n + 1) (.array a) (.array b) =
      .arrayElementMismatch a b :: elementMismatches n a b := by
  rw [elementMismatches, List.range_succ_eq_map, List.map_cons, List.map_map]
  simp only [TypeRef.peel]
  rfl

/-- The comparison of two references answers so, and then the trace
holds these reasons. -/
def Reports (w : World) (sub sup : TypeRef) (c : Checker) (found : Bool)
    (reasons : List Reason) : Prop :=
  ∃ c', checkRef w sub sup c = .ok (found, c') ∧ c'.trace = reasons

theorem exists_reports (w : World) (sub sup : TypeRef) (c : Checker) :
    ∃ found reasons, Reports w sub sup c found reasons := by
  obtain ⟨found, c', hrun, -⟩ := returns_checkRef w sub sup c
  exact ⟨found, c'.trace, c', hrun, rfl⟩

/-- Two references that are not both arrays are compared without a look
at the nesting counter. -/
theorem blind_checkRef {a b : TypeRef} (h : a.sharedLayers b = 0) : Blind (checkRef w a b) := by
  intro c c' found nesting chain hrun
  unfold checkRef at hrun ⊢
  by_cases heq : a = b
  · rw [if_pos heq] at hrun ⊢
    cases hrun
    exact ⟨chain, rfl⟩
  · rw [if_neg heq] at hrun ⊢
    split at hrun
    · simp [TypeRef.sharedLayers] at h
    · exact blind_checkNamed w _ _ c c' found nesting chain hrun
    · exact blind_refuse _ c c' found nesting chain hrun

theorem Reports.nested {a b : TypeRef} {c : Checker} {found : Bool} {reasons : List Reason}
    (h : Reports w a b c found reasons) (hlayers : a.sharedLayers b = 0) (nesting : Counter) :
    Reports w a b { c with nesting } found reasons := by
  obtain ⟨c', hrun, htrace⟩ := h
  obtain ⟨chain, hrun'⟩ := blind_checkRef hlayers c c' found nesting c.chain hrun
  exact ⟨_, hrun', htrace⟩

/-- The checker one array layer further in. -/
def inside (c : Checker) : Checker :=
  { c with nesting := { c.nesting with depth := c.nesting.depth + 1 } }

/-- Two arrays: what is reported of their elements, and if those do not
match, one reason on top. -/
theorem Reports.array {a b : TypeRef} {c : Checker} {found : Bool} {reasons : List Reason}
    (hne : a ≠ b) (hroom : c.nesting.depth < c.nesting.maxDepth)
    (h : Reports w a b c.inside found reasons) :
    Reports w (.array a) (.array b) c found
      (if found then reasons else .arrayElementMismatch a b :: reasons) := by
  obtain ⟨c₁, hrun, rfl⟩ := h
  have hne' : TypeRef.array a ≠ .array b := fun heq => hne (TypeRef.collection.inj heq).2
  have henter : c.nesting.enter = (true, { c.nesting with depth := c.nesting.depth + 1 }) := by
    unfold Counter.enter
    rw [if_neg (Nat.not_le.2 hroom)]
  have hinside : checkRef w a b
      { c with nesting := { c.nesting with depth := c.nesting.depth + 1 } } = .ok (found, c₁) := hrun
  -- The level that was entered is left again.
  have hleave := Counter.leave_succ ((returns_checkRef w a b).samePlace hrun).nesting
  unfold Reports checkRef
  simp only [if_neg hne', henter, hinside, bind, Except.bind, hleave]
  cases found <;> exact ⟨_, rfl, rfl⟩

/-- Two arrays, and no further layer is granted. -/
theorem reports_tooDeep {a b : TypeRef} {c : Checker} (hne : a ≠ b)
    (hfull : c.nesting.maxDepth ≤ c.nesting.depth) :
    Reports w (.array a) (.array b) c false (.walkLimitExceeded (.array a) :: c.trace) := by
  have hne' : TypeRef.array a ≠ .array b := fun heq => hne (TypeRef.collection.inj heq).2
  have henter : c.nesting.enter = (false, { c.nesting with exceeded := true }) := by
    unfold Counter.enter
    rw [if_pos hfull]
  unfold Reports checkRef
  simp only [if_neg hne', henter]
  exact ⟨_, rfl, rfl⟩

/-- Through as many layers as are granted, the pair inside is compared
as it would be alone, and each layer adds its reason to a refusal. -/
theorem reports_of_layers (sub sup : TypeRef) {c : Checker} {found : Bool} {reasons : List Reason}
    (hne : sub ≠ sup) (hroom : c.nesting.depth + sub.sharedLayers sup ≤ c.nesting.maxDepth)
    (h : Reports w (sub.peel (sub.sharedLayers sup)) (sup.peel (sub.sharedLayers sup)) c found
      reasons) :
    Reports w sub sup c found
      (if found then reasons
        else elementMismatches (sub.sharedLayers sup) sub sup ++ reasons) := by
  fun_induction TypeRef.sharedLayers sub sup generalizing c with
  | case1 a b ih =>
    have hne' : a ≠ b := fun heq => hne (heq ▸ rfl)
    have hinside := h.nested (TypeRef.sharedLayers_peel a b)
      { c.nesting with depth := c.nesting.depth + 1 }
    have hroom' : c.inside.nesting.depth + a.sharedLayers b ≤ c.inside.nesting.maxDepth := by
      show c.nesting.depth + 1 + a.sharedLayers b ≤ c.nesting.maxDepth
      omega
    have harray := (ih hne' hroom' hinside).array hne' (by omega)
    rw [elementMismatches_succ]
    cases found <;> exact harray
  | case2 sub sup =>
    rw [TypeRef.peel_zero, TypeRef.peel_zero] at h
    cases found <;> exact h

/-- With more layers than are granted, the descent ends at the first one
too many. -/
theorem reports_of_too_many_layers (sub sup : TypeRef) {c : Checker} {room : Nat} (hne : sub ≠ sup)
    (hroom : c.nesting.depth + room = c.nesting.maxDepth) (hlayers : room < sub.sharedLayers sup) :
    Reports w sub sup c false
      (elementMismatches room sub sup ++ .walkLimitExceeded (sub.peel room) :: c.trace) := by
  fun_induction TypeRef.sharedLayers sub sup generalizing c room with
  | case1 a b ih =>
    have hne' : a ≠ b := fun heq => hne (heq ▸ rfl)
    cases room with
    | zero => exact reports_tooDeep hne' (Nat.le_of_eq hroom.symm)
    | succ room =>
      have hroom' : c.inside.nesting.depth + room = c.inside.nesting.maxDepth := by
        show c.nesting.depth + 1 + room = c.nesting.maxDepth
        omega
      rw [elementMismatches_succ]
      exact (ih hne' hroom' (Nat.lt_of_succ_lt_succ hlayers)).array hne' (by omega)
  | case2 => exact absurd hlayers (Nat.not_lt_zero _)

/-- A new checker reports on two well formed references as the query
does. -/
theorem ask_of_reports {sub sup : TypeRef} (hsub : sub.wellFormed = true)
    (hsup : sup.wellFormed = true) {found : Bool} {reasons : List Reason}
    (h : Reports w sub sup Checker.new found reasons) :
    (Checker.new.ask w (some sub) (some sup)).1 = found ∧
    (Checker.new.ask w (some sub) (some sup)).2.trace = reasons := by
  obtain ⟨c', hrun, rfl⟩ := h
  have hask := check_eq_ok_ask w (some sub) (some sup) Checker.new
  simp only [check, hsub, hsup, Bool.not_true, Bool.false_eq_true, if_false] at hask
  -- The query starts with no reasons and a guard that was reset, as a new checker does.
  have hstart : checkRef w sub sup Checker.new = .ok (Checker.new.ask w (some sub) (some sup)) := hask
  rw [hrun] at hstart
  rw [← Except.ok.inj hstart]
  exact ⟨rfl, rfl⟩

/-- A query about two references that share no more layers than are
looked through is answered like that about the pair inside, and the
layers add their reasons if it is refused. -/
theorem ask_of_layers {sub sup : TypeRef} (hsub : sub.wellFormed = true)
    (hsup : sup.wellFormed = true) (hne : sub ≠ sup) {n : Nat} (hn : sub.sharedLayers sup = n)
    (hle : n ≤ Limits.nesting.maxDepth) :
    (Checker.new.ask w (some sub) (some sup)).1 =
      (Checker.new.ask w (some (sub.peel n)) (some (sup.peel n))).1 ∧
    (Checker.new.ask w (some sub) (some sup)).2.trace =
      if (Checker.new.ask w (some sub) (some sup)).1 then
        (Checker.new.ask w (some (sub.peel n)) (some (sup.peel n))).2.trace
      else elementMismatches n sub sup ++
        (Checker.new.ask w (some (sub.peel n)) (some (sup.peel n))).2.trace := by
  subst hn
  obtain ⟨found, reasons, hinner⟩ := exists_reports w (sub.peel (sub.sharedLayers sup))
    (sup.peel (sub.sharedLayers sup)) Checker.new
  have houter := reports_of_layers sub sup hne
    (show 0 + sub.sharedLayers sup ≤ Limits.nesting.maxDepth by omega) hinner
  obtain ⟨hfound, htrace⟩ := ask_of_reports hsub hsup houter
  obtain ⟨hfound', htrace'⟩ := ask_of_reports (by rw [TypeRef.wellFormed_peel, hsub])
    (by rw [TypeRef.wellFormed_peel, hsup]) hinner
  rw [htrace, hfound, hfound', htrace']
  exact ⟨rfl, rfl⟩

/-- A query about two references that share more layers than are looked
through is refused, with a reason for each layer that was and one for
the first that was not. -/
theorem ask_of_too_many_layers {sub sup : TypeRef} (hsub : sub.wellFormed = true)
    (hsup : sup.wellFormed = true) (hne : sub ≠ sup)
    (hlayers : Limits.nesting.maxDepth < sub.sharedLayers sup) :
    (Checker.new.ask w (some sub) (some sup)).1 = false ∧
    (Checker.new.ask w (some sub) (some sup)).2.trace =
      elementMismatches Limits.nesting.maxDepth sub sup ++
        [.walkLimitExceeded (sub.peel Limits.nesting.maxDepth)] :=
  ask_of_reports hsub hsup
    (reports_of_too_many_layers sub sup hne (Nat.zero_add Limits.nesting.maxDepth) hlayers)

/-- A query about two different references that share no layer: two
names are compared by what they stand for, and anything else is refused
for its shape, with that reason alone. -/
theorem ask_cases {a b : TypeRef} (ha : a.wellFormed = true) (hb : b.wellFormed = true)
    (hne : a ≠ b) (hlayers : a.sharedLayers b = 0) :
    (∃ s t, a = .named s ∧ b = .named t ∧
      checkNamed w s t Checker.new = .ok (Checker.new.ask w (some a) (some b)) ∧
      Verdict w s t Checker.new (Checker.new.ask w (some a) (some b))) ∨
    ((∀ s t, a = .named s → b ≠ .named t) ∧
      (Checker.new.ask w (some a) (some b)).1 = false ∧
      (Checker.new.ask w (some a) (some b)).2.trace = [shapeRefusal a b]) := by
  have hask := check_eq_ok_ask w (some a) (some b) Checker.new
  simp only [check, ha, hb, Bool.not_true, Bool.false_eq_true, if_false] at hask
  unfold checkRef at hask
  rw [if_neg hne] at hask
  split at hask
  · simp [TypeRef.sharedLayers] at hlayers
  · next s t =>
    have hst : s ≠ t := fun heq => hne (heq ▸ rfl)
    exact .inl ⟨s, t, rfl, rfl, hask, verdict_of_checkNamed (Nat.zero_le _) hst hask⟩
  · next hnames =>
    rw [← Except.ok.inj hask]
    exact .inr ⟨fun s t hs ht => hnames s t hs ht, rfl, rfl⟩

/-- All the ways in which a query can end, with the answer and the
reasons that are left. -/
inductive Outcome (w : World) : Option TypeRef → Option TypeRef → Bool → List Reason → Prop where
  | void : Outcome w none none true []
  | voidSub {b : TypeRef} : Outcome w none (some b) false [.voidMismatch .subtype]
  | voidSup {a : TypeRef} : Outcome w (some a) none false [.voidMismatch .supertype]
  /-- One of the references is not well formed. -/
  | malformed {a b t : TypeRef} : Outcome w (some a) (some b) false [.malformedType t]
  | equal {t : TypeRef} : Outcome w (some t) (some t) true []
  /-- There are more shared layers than are looked through. -/
  | tooDeep {a b : TypeRef} (hlayers : Limits.nesting.maxDepth < a.sharedLayers b) :
      Outcome w (some a) (some b) false
        (elementMismatches Limits.nesting.maxDepth a b ++
          [.walkLimitExceeded (a.peel Limits.nesting.maxDepth)])
  /-- Inside of the layers are two references of which one is no name. -/
  | shapes {a b : TypeRef} {n : Nat} :
      Outcome w (some a) (some b) false
        (elementMismatches n a b ++ [shapeRefusal (a.peel n) (b.peel n)])
  /-- Inside of the layers are two names. -/
  | names {a b : TypeRef} {n : Nat} {s t : String} {answer : Bool × Checker}
      (run : checkNamed w s t Checker.new = .ok answer)
      (verdict : Verdict w s t Checker.new answer) :
      Outcome w (some a) (some b) answer.1
        (if answer.1 then answer.2.trace else elementMismatches n a b ++ answer.2.trace)

/-- Every query ends in one of these ways. -/
theorem outcome_ask (w : World) (sub sup : Option TypeRef) :
    Outcome w sub sup (Checker.new.ask w sub sup).1 (Checker.new.ask w sub sup).2.trace := by
  have hask := check_eq_ok_ask w sub sup Checker.new
  match sub, sup with
  | none, none =>
    rw [← Except.ok.inj hask]
    exact .void
  | none, some _ =>
    rw [← Except.ok.inj hask]
    exact .voidSub
  | some _, none =>
    rw [← Except.ok.inj hask]
    exact .voidSup
  | some a, some b =>
    cases ha : a.wellFormed with
    | false =>
      simp only [check, ha, Bool.not_false, if_true] at hask
      rw [← Except.ok.inj hask]
      exact .malformed
    | true =>
      cases hb : b.wellFormed with
      | false =>
        simp only [check, ha, hb, Bool.not_true, Bool.not_false, Bool.false_eq_true, if_false,
          if_true] at hask
        rw [← Except.ok.inj hask]
        exact .malformed
      | true =>
        by_cases hne : a = b
        · subst hne
          obtain ⟨hfound, htrace⟩ := ask_of_reports (w := w) ha ha
            ⟨Checker.new, by unfold checkRef; rw [if_pos rfl], rfl⟩
          rw [hfound, htrace]
          exact .equal
        · by_cases hlayers : a.sharedLayers b ≤ Limits.nesting.maxDepth
          · obtain ⟨hfound, htrace⟩ := ask_of_layers (w := w) ha hb hne rfl hlayers
            rw [htrace, hfound]
            rcases ask_cases (w := w) (by rw [TypeRef.wellFormed_peel, ha])
              (by rw [TypeRef.wellFormed_peel, hb]) (TypeRef.peel_ne hne)
              (TypeRef.sharedLayers_peel a b) with
              ⟨s, t, -, -, run, verdict⟩ | ⟨-, hrefused, hreason⟩
            · exact .names run verdict
            · rw [hrefused, hreason]
              exact .shapes
          · have hlayers' := Nat.lt_of_not_le hlayers
            obtain ⟨hfound, htrace⟩ := ask_of_too_many_layers (w := w) ha hb hne hlayers'
            rw [hfound, htrace]
            exact .tooDeep hlayers'

/-- The layers add reasons of one kind only. -/
theorem exists_eq_of_mem_elementMismatches {n : Nat} {a b : TypeRef} {r : Reason}
    (h : r ∈ elementMismatches n a b) : ∃ x y, r = .arrayElementMismatch x y := by
  obtain ⟨k, -, rfl⟩ := List.mem_map.1 h
  exact ⟨_, _, rfl⟩

/-- A refusal for the shapes is none of the reasons that a walk
leaves. -/
theorem shapeRefusal_ne (a b : TypeRef) :
    (∀ fqn, shapeRefusal a b ≠ .unresolvedType fqn) ∧
    (∀ fqn, shapeRefusal a b ≠ .inheritanceCycle fqn) ∧
    ∀ place, shapeRefusal a b ≠ .walkLimitExceeded place := by
  unfold shapeRefusal
  dsimp only
  repeat' split
  all_goals exact ⟨nofun, nofun, nofun⟩

end Checker

/-- The reason for which a name is refused in place of another one, by
what the two stand for. -/
inductive NameReason (w : World) (s t : String) : Reason → Prop where
  | unresolvedSub (hs : w.resolve s = none) : NameReason w s t (.unresolvedType s)
  | unresolvedSup {subDef : TypeDef} (hs : w.resolve s = some subDef) (ht : w.resolve t = none) :
      NameReason w s t (.unresolvedType t)
  | classes {k l : ClassDef} (hs : w.resolve s = some (.class k))
      (ht : w.resolve t = some (.class l)) : NameReason w s t (.notASubclass s t)
  | interfaces {i j : InterfaceDef} (hs : w.resolve s = some (.interface i))
      (ht : w.resolve t = some (.interface j)) : NameReason w s t (.interfaceNotExtended s t)
  | implementation {k : ClassDef} {j : InterfaceDef} (hs : w.resolve s = some (.class k))
      (ht : w.resolve t = some (.interface j)) : NameReason w s t (.interfaceNotImplemented s t)
  | unrelated {subDef supDef : TypeDef} (hs : w.resolve s = some subDef)
      (ht : w.resolve t = some supDef)
      (hkind : subDef.kind = .enumKind ∨ supDef.kind = .enumKind ∨
        subDef.kind = .interfaceKind ∧ supDef.kind = .classKind) :
      NameReason w s t (.kindMismatch s subDef.kind t supDef.kind)

open TypeRef (Either)

/-- The first reason for which two different references that share no
array layer are refused: the rules of the forms in their order, and for
two names the reason of the names. -/
structure FirstReason (w : World) (a b : TypeRef) (first : Option Reason) : Prop where
  ofMap (h : Either .map a b) : first = some (.mapInvariant a b)
  ofUnion (hmap : ¬ Either .map a b) (h : Either .union a b) :
    first = some (.unionNotNarrowable a b)
  ofIntersection (hmap : ¬ Either .map a b) (hunion : ¬ Either .union a b)
    (h : Either .intersection a b) : first = some (.intersectionNotCovariant a b)
  ofPrimitive (hmap : ¬ Either .map a b) (hunion : ¬ Either .union a b)
    (hintersection : ¬ Either .intersection a b) (h : Either .primitive a b) :
    first = some (.primitiveNotNarrowable a b)
  ofArray (hmap : ¬ Either .map a b) (hunion : ¬ Either .union a b)
    (hintersection : ¬ Either .intersection a b) (hprimitive : ¬ Either .primitive a b)
    (h : Either .array a b) : first = some (.shapeMismatch a b)
  ofNames {s t : String} (ha : a = .named s) (hb : b = .named t) :
    ∃ r, first = some r ∧ NameReason w s t r

namespace FirstReason

variable {w : World}

/-- The tests that the rules make are tests of the form. -/
theorem tests_eq_form (t : TypeRef) :
    t.mapElement?.isSome = decide (t.form = .map) ∧ t.isUnion = decide (t.form = .union) ∧
    t.isIntersection = decide (t.form = .intersection) ∧
    t.primitive?.isSome = decide (t.form = .primitive) := by
  cases t with
  | collection kind _ => cases kind <;> exact ⟨rfl, rfl, rfl, rfl⟩
  | _ => exact ⟨rfl, rfl, rfl, rfl⟩

theorem shapeRefusal_eq (a b : TypeRef) :
    Checker.shapeRefusal a b =
      if Either .map a b then .mapInvariant a b
      else if Either .union a b then .unionNotNarrowable a b
      else if Either .intersection a b then .intersectionNotCovariant a b
      else if Either .primitive a b then .primitiveNotNarrowable a b
      else .shapeMismatch a b := by
  obtain ⟨hmap, hunion, hintersection, hprimitive⟩ := tests_eq_form a
  obtain ⟨hmap', hunion', hintersection', hprimitive'⟩ := tests_eq_form b
  simp only [Checker.shapeRefusal, hmap, hmap', hunion, hunion', hintersection, hintersection',
    hprimitive, hprimitive', Bool.or_eq_true, decide_eq_true_eq]
  rfl

/-- A refusal for the shapes follows the order of the rules. -/
theorem of_shapes {a b : TypeRef} (hnames : ∀ s t, a = .named s → b ≠ .named t) :
    FirstReason w a b (some (Checker.shapeRefusal a b)) := by
  rw [shapeRefusal_eq]
  refine ⟨fun h => ?_, fun hmap h => ?_, fun hmap hunion h => ?_, fun hmap hunion hinter h => ?_,
    fun hmap hunion hinter hprimitive h => ?_, fun ha hb => absurd hb (hnames _ _ ha)⟩
  · rw [if_pos h]
  · rw [if_neg hmap, if_pos h]
  · rw [if_neg hmap, if_neg hunion, if_pos h]
  · rw [if_neg hmap, if_neg hunion, if_neg hinter, if_pos h]
  · rw [if_neg hmap, if_neg hunion, if_neg hinter, if_neg hprimitive]

/-- Two names are refused for the reason of the names. -/
theorem of_names {s t : String} {r : Reason} (h : NameReason w s t r) :
    FirstReason w (.named s) (.named t) (some r) where
  ofMap h := by rcases h with h | h <;> cases h
  ofUnion _ h := by rcases h with h | h <;> cases h
  ofIntersection _ _ h := by rcases h with h | h <;> cases h
  ofPrimitive _ _ _ h := by rcases h with h | h <;> cases h
  ofArray _ _ _ _ h := by rcases h with h | h <;> cases h
  ofNames hs ht := by
    cases hs
    cases ht
    exact ⟨r, rfl, h⟩

end FirstReason

namespace Checker

variable {w : World}

/-- A reason that was added to a refusal comes first. -/
theorem trace_settle {r : Reason} {answer : Bool × Checker} (h : (settle r answer).1 = false) :
    (settle r answer).2.trace = r :: answer.2.trace := by
  rcases answer with ⟨found, c⟩
  cases found with
  | true => cases h
  | false => rfl

/-- The first reason for which a name is refused is that of what the
names stand for. -/
theorem Verdict.nameReason {s t : String} {c : Checker} {answer : Bool × Checker}
    (h : Verdict w s t c answer) (hrefused : answer.1 = false) :
    ∃ r rest, answer.2.trace = r :: rest ∧ NameReason w s t r := by
  cases h with
  | unresolvedSub hs => exact ⟨_, _, rfl, .unresolvedSub hs⟩
  | unresolvedSup hs ht => exact ⟨_, _, rfl, .unresolvedSup hs ht⟩
  | unrelated hs ht hkind => exact ⟨_, _, rfl, .unrelated hs ht hkind⟩
  | classes hs ht => exact ⟨_, _, trace_settle hrefused, .classes hs ht⟩
  | interfaces hs ht => exact ⟨_, _, trace_settle hrefused, .interfaces hs ht⟩
  | implementation hs ht => exact ⟨_, _, trace_settle hrefused, .implementation hs ht⟩

/-- A query that is refused is explained by the reasons it has left. -/
theorem explain_of_refused {sub sup : Option TypeRef} (h : (Checker.new.ask w sub sup).1 = false) :
    explain w sub sup = ⟨false, (Checker.new.ask w sub sup).2.trace⟩ := by
  unfold explain explanation
  split
  · next hask =>
    rw [hask] at h
    cases h
  · next hask => rw [hask]

/-- The first reason for two different references that share no layer,
if they are refused. -/
theorem firstReason_of_refused {a b : TypeRef} (ha : a.wellFormed = true)
    (hb : b.wellFormed = true) (hne : a ≠ b) (hlayers : a.sharedLayers b = 0)
    (hrefused : isAllowed w (some a) (some b) = false) :
    FirstReason w a b (explain w (some a) (some b)).primary? := by
  rw [explain_of_refused hrefused]
  rcases ask_cases (w := w) ha hb hne hlayers with
    ⟨s, t, rfl, rfl, -, verdict⟩ | ⟨hnames, -, htrace⟩
  · obtain ⟨r, rest, htrace, hreason⟩ := verdict.nameReason hrefused
    rw [htrace]
    exact .of_names hreason
  · rw [htrace]
    exact .of_shapes hnames

end Checker

/-- A reference that is not well formed is refused at once, with that as
the only reason. -/
theorem explain_of_malformed (w : World) (sub sup : TypeRef) :
    (sub.wellFormed = false →
      explain w (some sub) (some sup) = ⟨false, [.malformedType sub]⟩) ∧
    (sub.wellFormed = true → sup.wellFormed = false →
      explain w (some sub) (some sup) = ⟨false, [.malformedType sup]⟩) := by
  have hask := Checker.check_eq_ok_ask w (some sub) (some sup) Checker.new
  refine ⟨fun hsub => ?_, fun hsub hsup => ?_⟩
  · simp only [Checker.check, hsub, Bool.not_false, if_true] at hask
    rw [explain, ← Except.ok.inj hask]
    rfl
  · simp only [Checker.check, hsub, hsup, Bool.not_true, Bool.not_false, Bool.false_eq_true,
      if_false, if_true] at hask
    rw [explain, ← Except.ok.inj hask]
    rfl

open Checker (elementMismatches)

/-- The reasons for a refusal, in every world. A reference that holds a
union or an intersection of fewer than two arms is refused, even against
itself, for that reason alone, and the first reference is looked at
first. Otherwise let two different references share `n` array layers
around `a` and `b`. If `n` is more than 64 they are refused with 65
reasons: one for each of the outermost 64 pairs of elements, and the
limit. If not, they are allowed exactly if `a` may stand in for `b`, and
else refused with a reason for each of the `n` pairs of elements, the
outermost first, and then the reasons for `a` and `b` themselves, of
which `FirstReason` says the first. -/
theorem explain_layer_by_layer (w : World) (sub sup : TypeRef) :
    (sub.Degenerate → explain w (some sub) (some sup) = ⟨false, [.malformedType sub]⟩) ∧
    (¬ sub.Degenerate → sup.Degenerate →
      explain w (some sub) (some sup) = ⟨false, [.malformedType sup]⟩) ∧
    (¬ sub.Degenerate → ¬ sup.Degenerate → sub ≠ sup →
      (64 < sub.sharedLayers sup →
        explain w (some sub) (some sup) =
          ⟨false, elementMismatches 64 sub sup ++ [.walkLimitExceeded (sub.peel 64)]⟩ ∧
        (explain w (some sub) (some sup)).reasons.length = 65) ∧
      ∀ n a b, sub.sharedLayers sup = n → sub.peel n = a → sup.peel n = b → n ≤ 64 →
        isAllowed w (some sub) (some sup) = isAllowed w (some a) (some b) ∧
        (isAllowed w (some sub) (some sup) = false →
          (explain w (some sub) (some sup)).reasons =
            elementMismatches n sub sup ++ (explain w (some a) (some b)).reasons ∧
          FirstReason w a b (explain w (some a) (some b)).primary?)) := by
  obtain ⟨hmalformed, hmalformed'⟩ := explain_of_malformed w sub sup
  refine ⟨fun hsub => hmalformed (TypeRef.wellFormed_eq_false_iff.2 hsub), fun hsub hsup => ?_,
    fun hsub hsup hne => ?_⟩
  · exact hmalformed' (TypeRef.not_degenerate_iff.1 hsub)
      (TypeRef.wellFormed_eq_false_iff.2 hsup)
  · have hsub' := TypeRef.not_degenerate_iff.1 hsub
    have hsup' := TypeRef.not_degenerate_iff.1 hsup
    refine ⟨fun hlayers => ?_, ?_⟩
    · obtain ⟨hrefused, htrace⟩ := Checker.ask_of_too_many_layers (w := w) hsub' hsup' hne hlayers
      rw [Checker.explain_of_refused hrefused, htrace]
      refine ⟨rfl, ?_⟩
      simp [elementMismatches, Limits.nesting]
    · rintro n a b hn rfl rfl hle
      obtain ⟨hfound, htrace⟩ := Checker.ask_of_layers (w := w) hsub' hsup' hne hn hle
      refine ⟨hfound, fun hrefused => ?_⟩
      have hrefused' : isAllowed w (some (sub.peel n)) (some (sup.peel n)) = false :=
        hfound.symm.trans hrefused
      have hrefusedAsk : (Checker.new.ask w (some sub) (some sup)).1 = false := hrefused
      refine ⟨?_, ?_⟩
      · rw [Checker.explain_of_refused hrefused, Checker.explain_of_refused hrefused', htrace,
          hrefusedAsk]
        rfl
      · subst hn
        exact Checker.firstReason_of_refused (by rw [TypeRef.wellFormed_peel, hsub'])
          (by rw [TypeRef.wellFormed_peel, hsup']) (TypeRef.peel_ne hne)
          (TypeRef.sharedLayers_peel sub sup) hrefused'

/-- Two classes, one of them above the other. -/
def nestedPets : Assembly where
  name := "pet"
  types := [
    ("pet.Animal", .class { fqn := "pet.Animal" }),
    ("pet.Dog", .class { fqn := "pet.Dog", base := some "pet.Animal" })]

/-- A union without arms is refused in its own place. Animals do not
stand in for dogs: two layers further out two reasons are added, and 65
layers further out there are 65 reasons. -/
theorem explain_nestedPets :
    explain (World.of nestedPets []) (some (.map (.union []))) (some (.map (.union []))) =
      ⟨false, [.malformedType (.map (.union []))]⟩ ∧
    (explain (World.of nestedPets []) (some (.array (.array (.named "pet.Animal"))))
        (some (.array (.array (.named "pet.Dog"))))).reasons =
      [.arrayElementMismatch (.array (.named "pet.Animal")) (.array (.named "pet.Dog")),
        .arrayElementMismatch (.named "pet.Animal") (.named "pet.Dog"),
        .notASubclass "pet.Animal" "pet.Dog"] ∧
    (explain (World.of nestedPets []) (some (TypeRef.array^[65] (.named "pet.Animal")))
        (some (TypeRef.array^[65] (.named "pet.Dog")))).reasons.length = 65 := by
  obtain ⟨hmalformed, -, -⟩ := explain_layer_by_layer (World.of nestedPets []) (.map (.union []))
    (.map (.union []))
  obtain ⟨-, -, htwo⟩ := explain_layer_by_layer (World.of nestedPets [])
    (.array (.array (.named "pet.Animal"))) (.array (.array (.named "pet.Dog")))
  obtain ⟨-, -, hmany⟩ := explain_layer_by_layer (World.of nestedPets [])
    (TypeRef.array^[65] (.named "pet.Animal")) (TypeRef.array^[65] (.named "pet.Dog"))
  refine ⟨hmalformed (.element (.union (by decide))), ?_, ?_⟩
  · have hinside := ((htwo (TypeRef.not_degenerate_iff.2 rfl) (TypeRef.not_degenerate_iff.2 rfl)
      (by decide)).2 2 (.named "pet.Animal") (.named "pet.Dog") rfl rfl rfl (by decide)).2
      (by decide +kernel)
    rw [hinside.1]
    decide +kernel
  · exact ((hmany (TypeRef.not_degenerate_iff.2 rfl) (TypeRef.not_degenerate_iff.2 rfl)
      (by decide)).1 (by decide)).2

end OverrideCheck
