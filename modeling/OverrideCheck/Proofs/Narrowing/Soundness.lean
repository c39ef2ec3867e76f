import Mathlib.Logic.Function.Iterate
import OverrideCheck.Proofs.Lineage
import OverrideCheck.Proofs.Narrowing.Derivation

/-!
# `OverrideCheck.Proofs.Narrowing.Soundness`: what is allowed is inherited

A narrowing that is allowed has a reason in the world. Nothing is
assumed of the world for this: it may have cycles, the walk may have
been cut by a limit, and definitions may be found under names that are
not their own. A refusal needs no reason here, so a memory of explored
interfaces that is too full or a guard that is too strict do no harm.

The argument goes up through the layers of a query. A search that
succeeds has followed interface edges from one of its names to the
target (`Search.leads`). A comparison of two names that succeeds has
found the second by inheritance (`Comparison.inherits`). Two references
are allowed if they are equal, or if they are equally many array layers
around two such names (`Descent.eq_or_layers`). The layers are at most
as many as the nesting counter grants, since each of them enters one
level.
-/

set_option autoImplicit false

namespace OverrideCheck

/-- The first reference narrows the second: both have the same number
of array layers around a name, no more than are looked through, and
the first name inherits from the second. -/
def World.Narrows (w : World) (sub sup : TypeRef) : Prop :=
  ∃ n ≤ Limits.nesting.maxDepth, ∃ s t, sub = TypeRef.array^[n] (.named s) ∧
    sup = TypeRef.array^[n] (.named t) ∧ w.Inherits s t

namespace Checker

variable {w : World}

/-- A search that succeeds has followed interface edges to its
target. -/
theorem Search.leads {target : String} {names : List String} {c c' : Checker} {found : Bool}
    (h : Search w target names c found c') (hfound : found = true) : w.Leads names target := by
  induction h with
  | exhausted => cases hfound
  | hit => exact .of_mem List.mem_cons_self
  | known _ _ _ ih | unresolved _ _ _ _ ih | other _ _ _ _ _ ih | cycle _ _ _ _ _ ih
  | cut _ _ _ _ _ _ ih | failed _ _ _ _ _ _ _ ih =>
    exact (ih hfound).mono (List.subset_cons_self _ _)
  | above _ _ hsome _ _ ih => exact .of_listed List.mem_cons_self hsome (ih hfound)

/-- A name that is accepted in place of another inherits from it. -/
theorem Comparison.inherits {s t : String} {c : Checker} {found : Bool} {g : Guard}
    (h : Comparison w s t c found g) (hne : s ≠ t) (hfound : found = true) : w.Inherits s t := by
  cases h with
  | unresolved | unrelated => cases hfound
  | classes hs ht =>
    obtain ⟨m, hm, hbase⟩ := List.any_eq_true.1 hfound
    exact .subclass hs ht (World.baseChain_of_mem_lineage hm) (of_decide_eq_true hbase)
  | interfaces hs ht search =>
    exact .subinterface hs ht ((search.leads hfound).interfaces_of_singleton hne hs)
  | implementation hs ht search =>
    obtain ⟨m, hm, leads⟩ := (search.leads hfound).exists_of_flatMap
    exact .implementation hs ht (World.baseChain_of_mem_lineage hm) leads

/-- A reference that is accepted in place of another equals it, or both
are arrays of arrays down to two names, the first of which inherits
from the second. Each layer took one level of the nesting counter. -/
theorem Descent.eq_or_layers {sub sup : TypeRef} {c : Checker} {found : Bool} {g : Guard}
    (h : Descent w sub sup c found g) (hfound : found = true) :
    sub = sup ∨ ∃ n ≤ c.nesting.maxDepth - c.nesting.depth, ∃ s t,
      sub = TypeRef.array^[n] (.named s) ∧ sup = TypeRef.array^[n] (.named t) ∧
      w.Inherits s t := by
  induction h with
  | equal => exact .inl rfl
  | tooDeep | shapes => cases hfound
  | @array a b c nesting found g hne henter _ ih =>
    obtain ⟨hdepth, hmax, hlt⟩ := Counter.enter_granted henter
    rcases ih hfound with heq | ⟨n, hn, s, t, hsub, hsup, hinh⟩
    · exact absurd heq hne
    · refine .inr ⟨n + 1, ?_, s, t, ?_, ?_, hinh⟩
      · simp only [hdepth, hmax] at hn
        omega
      · rw [Function.iterate_succ_apply', hsub]
      · rw [Function.iterate_succ_apply', hsup]
  | @named s t _ _ _ hne names =>
    exact .inr ⟨0, Nat.zero_le _, s, t, rfl, rfl, names.inherits hne hfound⟩

/-- What `ask` does with two well formed references. -/
theorem descent_of_ask {sub sup : TypeRef} {c : Checker} (hsub : sub.wellFormed = true)
    (hsup : sup.wellFormed = true) :
    Descent w sub sup { c with trace := [], guard := c.guard.reset }
      (c.ask w (some sub) (some sup)).1 (c.ask w (some sub) (some sup)).2.guard := by
  have h := check_eq_ok_ask w (some sub) (some sup) c
  simp only [check, hsub, hsup, Bool.not_true, Bool.false_eq_true, if_false] at h
  exact descent_of_checkRef sub sup _ _ _ (Nat.zero_le _) h

/-- A query that is allowed compares void with void, or two well formed
references. -/
theorem cases_of_ask_allowed {sub sup : Option TypeRef} {c : Checker}
    (h : (c.ask w sub sup).1 = true) :
    (sub = none ∧ sup = none) ∨
    ∃ a b, sub = some a ∧ sup = some b ∧ a.wellFormed = true ∧ b.wellFormed = true := by
  have hcheck := check_eq_ok_ask w sub sup c
  generalize c.ask w sub sup = answer at h hcheck
  unfold check at hcheck
  dsimp only at hcheck
  split at hcheck
  · exact .inl ⟨rfl, rfl⟩
  · cases hcheck
    cases h
  · cases hcheck
    cases h
  · next a b =>
    split at hcheck
    · cases hcheck
      cases h
    · next ha =>
      split at hcheck
      · cases hcheck
        cases h
      · next hb => exact .inr ⟨a, b, rfl, rfl, by simpa using ha, by simpa using hb⟩

end Checker

/-- A reference that may stand in for another equals it, or narrows it
by inheritance. -/
theorem eq_or_narrows_of_isAllowed {w : World} {a b : TypeRef}
    (h : isAllowed w (some a) (some b) = true) : a = b ∨ w.Narrows a b := by
  rcases Checker.cases_of_ask_allowed h with ⟨hvoid, -⟩ | ⟨a', b', hsub, hsup, ha, hb⟩
  · cases hvoid
  · cases hsub
    cases hsup
    exact (Checker.descent_of_ask ha hb).eq_or_layers h

/-- Nothing is allowed without a reason, in any world. A type that may
stand in for another is void like it, or is the same well formed
reference, or narrows it: equally many array layers around two names,
the first of which inherits from the second. -/
theorem narrows_of_isAllowed (w : World) (sub sup : Option TypeRef)
    (h : isAllowed w sub sup = true) :
    (sub = none ∧ sup = none) ∨
    (∃ t, t.wellFormed = true ∧ sub = some t ∧ sup = some t) ∨
    ∃ a b, sub = some a ∧ sup = some b ∧ w.Narrows a b := by
  rcases Checker.cases_of_ask_allowed h with hvoid | ⟨a, b, rfl, rfl, ha, -⟩
  · exact .inl hvoid
  · rcases eq_or_narrows_of_isAllowed h with rfl | hnarrows
    · exact .inr (.inl ⟨a, ha, rfl, rfl⟩)
    · exact .inr (.inr ⟨a, b, rfl, rfl, hnarrows⟩)

/-- Two interfaces that list each other, and one of them lists a third.
The class that implements the first of them is the base of a class
which is stored under a name that is not its own. -/
def tangledPets : Assembly where
  name := "pet"
  types := [
    ("pet.Dog", .class { fqn := "pet.Hound", base := some "pet.Animal" }),
    ("pet.Animal", .class { fqn := "pet.Animal", interfaces := ["pet.Left"] }),
    ("pet.Left", .interface { fqn := "pet.Left", interfaces := ["pet.Right"] }),
    ("pet.Right", .interface { fqn := "pet.Right", interfaces := ["pet.Left", "pet.Tagged"] }),
    ("pet.Tagged", .interface { fqn := "pet.Tagged" })]

/-- An array of dogs may stand in for an array of tagged things, and
that is by inheritance. -/
theorem narrows_tangledPets :
    isAllowed (World.of tangledPets []) (some (.array (.named "pet.Dog")))
      (some (.array (.named "pet.Tagged"))) = true ∧
    (World.of tangledPets []).Narrows (.array (.named "pet.Dog")) (.array (.named "pet.Tagged")) := by
  have hallowed : isAllowed (World.of tangledPets []) (some (.array (.named "pet.Dog")))
      (some (.array (.named "pet.Tagged"))) = true := by decide +kernel
  refine ⟨hallowed, ?_⟩
  rcases narrows_of_isAllowed _ _ _ hallowed with ⟨hvoid, -⟩ | ⟨t, -, hsub, hsup⟩ |
    ⟨a, b, hsub, hsup, hnarrows⟩
  · cases hvoid
  · rw [← hsub] at hsup
    simp at hsup
  · cases hsub
    cases hsup
    exact hnarrows

end OverrideCheck
