import OverrideCheck.World

/-!
# `OverrideCheck.Lineage`: the chain of base classes

A class names at most one base, so what lies above it is a chain. The
chain goes on while the base resolves to a class that was not passed
yet, and `Lineage` records how it ended: at a class without base, at a
base that is no class or resolves to nothing, or back at a class that
the chain has already passed.

There is no bound on the length of a chain. It ends because the world
is finite: every step adds the name of one of its definitions to those
already seen (`World.unseen_lt`).
-/

set_option autoImplicit false

namespace OverrideCheck

/-- Why a chain of base classes goes no further. -/
inductive ChainEnd where
  /-- The last class has no base. -/
  | root
  /-- The base is defined, but not as a class. -/
  | nonClass (fqn : String)
  /-- The base stands for nothing. -/
  | unresolved (fqn : String)
  /-- The base is the named class, which the chain has passed. -/
  | cycle (fqn : String)
  deriving DecidableEq, Repr, Inhabited

/-- The classes above a class, the nearest first. -/
structure Lineage where
  bases : List ClassDef
  ending : ChainEnd
  deriving DecidableEq, Repr, Inhabited

namespace World

/-- How many definitions of the world have a name not seen yet. -/
def unseen (w : World) (seen : List String) : Nat :=
  w.definitions.countP fun d => d.fqn ∉ seen

theorem countP_unseen_le (seen : List String) (name : String) (ds : List TypeDef) :
    ds.countP (fun d => d.fqn ∉ name :: seen) ≤ ds.countP fun d => d.fqn ∉ seen := by
  refine List.countP_mono_left fun d _ h => ?_
  simp only [decide_eq_true_eq, List.mem_cons, not_or] at h ⊢
  exact h.2

theorem countP_unseen_lt {seen : List String} {d : TypeDef} (hd : d.fqn ∉ seen) :
    ∀ {ds : List TypeDef}, d ∈ ds →
      ds.countP (fun e => e.fqn ∉ d.fqn :: seen) < ds.countP fun e => e.fqn ∉ seen
  | e :: ds, hmem => by
    have hle := countP_unseen_le seen d.fqn ds
    rcases List.mem_cons.1 hmem with rfl | hmem
    · simp only [List.countP_cons, List.mem_cons, true_or, not_true_eq_false, decide_false,
        hd, not_false_eq_true, decide_true]
      simp only [List.mem_cons] at hle
      simp only [Bool.false_eq_true, if_false, if_true]
      omega
    · have hlt := countP_unseen_lt hd hmem
      simp only [List.countP_cons]
      have : (if decide (e.fqn ∉ d.fqn :: seen) = true then 1 else 0)
          ≤ (if decide (e.fqn ∉ seen) = true then 1 else 0) := by
        split
        · next h =>
          simp only [decide_eq_true_eq, List.mem_cons, not_or] at h
          simp [h.2]
        · omega
      omega

/-- Seeing a definition of the world for the first time leaves fewer
unseen. -/
theorem unseen_lt {w : World} {seen : List String} {d : TypeDef} (hw : d ∈ w.definitions)
    (hd : d.fqn ∉ seen) : w.unseen (d.fqn :: seen) < w.unseen seen :=
  countP_unseen_lt hd hw

/-- The chain above a class, given the names of the classes that lead
to it. -/
def climb (w : World) (seen : List String) (c : ClassDef) : Lineage :=
  match c.base with
  | none => ⟨[], .root⟩
  | some base =>
    match _found : w.resolve base with
    | none => ⟨[], .unresolved base⟩
    | some (.class parent) =>
      if _new : parent.fqn ∈ seen then ⟨[], .cycle parent.fqn⟩
      else
        let above := w.climb (parent.fqn :: seen) parent
        ⟨parent :: above.bases, above.ending⟩
    | some _ => ⟨[], .nonClass base⟩
termination_by w.unseen seen
decreasing_by exact unseen_lt (w.mem_of_resolve _found) _new

/-- The chain above a class, which counts as passed itself. -/
def lineage (w : World) (c : ClassDef) : Lineage := w.climb [c.fqn] c

end World

end OverrideCheck
