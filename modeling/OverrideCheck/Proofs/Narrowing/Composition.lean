import OverrideCheck.Proofs.Narrowing.Completeness

/-!
# `OverrideCheck.Proofs.Narrowing.Composition`: narrowings in a row

A narrowing of a narrowing is a narrowing again. For the relation
`World.Narrows` that is plain: the array layers of the type in the
middle can be counted in one way only (`TypeRef.layers_inj`), and
inheritance is transitive (`Narrows.trans`).

For the answers of a checker it is not plain, because a query may be
cut by a limit. In a world where definitions are found under their own
names this is the only exception (`isAllowed_of_narrows`). The layers
need no exception: both narrowings were looked through, and the
composed one has no more layers than they.
-/

set_option autoImplicit false

namespace OverrideCheck

namespace TypeRef

/-- The array layers around a name can be told from the name. -/
theorem layers_inj : ∀ {n m : Nat} {s t : String},
    array^[n] (.named s) = array^[m] (.named t) → n = m ∧ s = t
  | 0, 0, s, t, h => ⟨rfl, named.inj h⟩
  | 0, m + 1, s, t, h => by
    rw [Function.iterate_succ_apply'] at h
    cases h
  | n + 1, 0, s, t, h => by
    rw [Function.iterate_succ_apply'] at h
    cases h
  | n + 1, m + 1, s, t, h => by
    rw [Function.iterate_succ_apply', Function.iterate_succ_apply'] at h
    obtain ⟨hn, hs⟩ := layers_inj (collection.inj h).2
    exact ⟨congrArg (· + 1) hn, hs⟩

theorem wellFormed_layers (n : Nat) (s : String) : (array^[n] (.named s)).wellFormed = true := by
  induction n with
  | zero => rfl
  | succ n ih =>
    rw [Function.iterate_succ_apply', wellFormed]
    exact ih

end TypeRef

namespace World

variable {w : World}

/-- A narrowing of a narrowing is a narrowing. -/
theorem Narrows.trans {a b c : TypeRef} (hab : w.Narrows a b) (hbc : w.Narrows b c) :
    w.Narrows a c := by
  obtain ⟨n, hn, s, t, rfl, hb, hst⟩ := hab
  obtain ⟨m, -, t', u, hb', rfl, htu⟩ := hbc
  obtain ⟨rfl, rfl⟩ := TypeRef.layers_inj (hb.symm.trans hb')
  exact ⟨n, hn, s, u, rfl, rfl, hst.trans htu⟩

/-- One output type is the other, or narrows it. -/
def Refines (w : World) (sub sup : Option TypeRef) : Prop :=
  sub = sup ∨ ∃ a b, sub = some a ∧ sup = some b ∧ w.Narrows a b

theorem Refines.trans {a b c : Option TypeRef} (hab : w.Refines a b) (hbc : w.Refines b c) :
    w.Refines a c := by
  rcases hab with rfl | ⟨x, y, rfl, rfl, hxy⟩
  · exact hbc
  · rcases hbc with rfl | ⟨y', z, hy, rfl, hyz⟩
    · exact .inr ⟨x, y, rfl, rfl, hxy⟩
    · cases hy
      exact .inr ⟨x, z, rfl, rfl, hxy.trans hyz⟩

/-- Void is refined by void alone. -/
theorem Refines.isSome_eq {a b : Option TypeRef} (h : w.Refines a b) : a.isSome = b.isSome := by
  rcases h with rfl | ⟨x, y, rfl, rfl, -⟩
  · rfl
  · rfl

end World

variable {w : World}

/-- What is allowed refines, in every world. -/
theorem refines_of_isAllowed {sub sup : Option TypeRef} (h : isAllowed w sub sup = true) :
    w.Refines sub sup := by
  rcases Checker.cases_of_ask_allowed h with ⟨rfl, rfl⟩ | ⟨a, b, rfl, rfl, -, -⟩
  · exact .inl rfl
  · rcases eq_or_narrows_of_isAllowed h with rfl | hnarrows
    · exact .inl rfl
    · exact .inr ⟨a, b, rfl, rfl, hnarrows⟩

/-- Equal references are accepted without a look at what they say. -/
theorem Checker.Descent.found_of_eq {a b : TypeRef} {c : Checker} {found : Bool} {g : Guard}
    (h : Descent w a b c found g) (heq : a = b) : found = true := by
  cases h with
  | equal => rfl
  | tooDeep hne | array hne => exact absurd (TypeRef.collection.inj heq).2 hne
  | named hne => exact absurd (TypeRef.named.inj heq) hne
  | shapes hne => exact absurd heq hne

/-- Equally many array layers around two names, no more than the counter
still grants: the names decide, and the first is accepted if it
inherits from the second. -/
theorem Checker.Descent.found_of_layers (hw : w.WellKeyed) {s t : String} (hinh : w.Inherits s t) :
    ∀ {n : Nat} {c : Checker} {found : Bool} {g : Guard},
      Descent w (TypeRef.array^[n] (.named s)) (TypeRef.array^[n] (.named t)) c found g →
      c.guard.path = [] → c.nesting.depth + n ≤ c.nesting.maxDepth → g.exceeded = false →
      found = true
  | 0, c, found, g, h, hpath, _, hexceeded => by
    by_cases heq : s = t
    · exact h.found_of_eq (congrArg TypeRef.named heq)
    · exact (h.comparison heq).found_of_inherits hw hpath (.inr hexceeded) hinh
  | n + 1, c, found, g, h, hpath, hlevels, hexceeded => by
    rw [Function.iterate_succ_apply', Function.iterate_succ_apply'] at h
    generalize hsub : TypeRef.array^[n] (.named s) = a at h
    generalize hsup : TypeRef.array^[n] (.named t) = b at h
    cases h with
    | equal => rfl
    | tooDeep _ hdeep => omega
    | array _ henter elements =>
      -- One layer takes one level of the counter.
      obtain ⟨hdepth, hmax, -⟩ := Counter.enter_granted henter
      rw [← hsub, ← hsup] at elements
      refine elements.found_of_layers hw hinh hpath ?_ hexceeded
      simp only [hdepth, hmax]
      omega
    | shapes _ harrays => exact absurd rfl (harrays a b rfl)

/-- Where definitions are found under their own names, a narrowing is
allowed unless a limit cuts the query. -/
theorem isAllowed_of_narrows (hw : w.WellKeyed) {a b : TypeRef} (h : w.Narrows a b)
    (hexceeded : (Checker.new.ask w (some a) (some b)).2.guard.exceeded = false) :
    isAllowed w (some a) (some b) = true := by
  obtain ⟨n, hn, s, t, rfl, rfl, hinh⟩ := h
  have descent := Checker.descent_of_ask (w := w) (c := Checker.new)
    (TypeRef.wellFormed_layers n s) (TypeRef.wellFormed_layers n t)
  refine descent.found_of_layers hw hinh rfl ?_ hexceeded
  show 0 + n ≤ Limits.nesting.maxDepth
  omega

end OverrideCheck
