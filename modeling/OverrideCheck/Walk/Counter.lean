import OverrideCheck.Walk.Guard

/-!
# `OverrideCheck.Walk.Counter`: the depth of nested references

A descent into `array<array<…>>` meets the same shape again and again,
so there is no path to keep: only how deep the descent is. Unlike a
guard, the counter is not reset between queries. It comes back to zero
by itself, because every level entered is left.
-/

set_option autoImplicit false

namespace OverrideCheck

/-- How deep a descent is, and how deep it may get. -/
structure Counter where
  maxDepth : Nat
  depth : Nat := 0
  /-- A level has been refused. -/
  exceeded : Bool := false
  deriving DecidableEq, Repr, Inhabited

namespace Counter

/-- A counter at depth zero. -/
def ofLimits (limits : Limits) : Counter := { maxDepth := limits.maxDepth }

/-- Ask to go one level down. Only a granted level may be left. -/
def enter (c : Counter) : Bool × Counter :=
  if c.maxDepth ≤ c.depth then (false, { c with exceeded := true })
  else (true, { c with depth := c.depth + 1 })

/-- Come one level up. -/
def leave (c : Counter) : Except Misuse Counter :=
  if 0 < c.depth then .ok { c with depth := c.depth - 1 } else .error .leftTooOften

/-- Give the counter up. It has to be at depth zero. -/
def drop (c : Counter) : Except Misuse Unit :=
  if c.depth = 0 then .ok () else .error (.depthRemains c.depth)

/-- One use of a counter. -/
inductive Action where
  | enter
  | leave
  deriving DecidableEq, Repr, Inhabited

/-- A finished action: whether a level was granted (nothing for a
return), and the counter after it. -/
structure Step where
  answer : Option Bool
  counter : Counter
  deriving DecidableEq, Repr, Inhabited

/-- Do one action. -/
def perform (c : Counter) : Action → Except Misuse Step
  | .enter => let (granted, c) := c.enter; .ok ⟨some granted, c⟩
  | .leave => c.leave.map fun c => ⟨none, c⟩

/-- Do one action after the other, up to the first mistake. -/
def performAll : List Action → Counter → List Step × Except Misuse Counter
  | [], c => ([], .ok c)
  | a :: rest, c =>
    match c.perform a with
    | .error m => ([], .error m)
    | .ok step =>
      let (more, result) := performAll rest step.counter
      (step :: more, result)

theorem enter_granted {c c' : Counter} (h : c.enter = (true, c')) :
    c'.depth = c.depth + 1 ∧ c'.maxDepth = c.maxDepth ∧ c.depth < c.maxDepth := by
  unfold enter at h
  split at h
  · cases h
  · next hlt => cases h; exact ⟨rfl, rfl, Nat.lt_of_not_le hlt⟩

theorem enter_refused {c c' : Counter} (h : c.enter = (false, c')) :
    c'.depth = c.depth ∧ c'.maxDepth = c.maxDepth ∧ c.maxDepth ≤ c.depth := by
  unfold enter at h
  split at h
  · next hle => cases h; exact ⟨rfl, rfl, hle⟩
  · cases h

/-- A level that was entered can be left. -/
theorem leave_succ {c : Counter} {n : Nat} (h : c.depth = n + 1) :
    c.leave = .ok { c with depth := n } := by
  simp [leave, h]

end Counter

end OverrideCheck
