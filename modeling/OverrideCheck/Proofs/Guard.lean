import OverrideCheck.Walk.Guard

/-!
# `OverrideCheck.Proofs.Guard`: a guard across one level of a walk

Both walks over interfaces enter a name, go through what is above it,
and leave the name. They recurse on a number of levels that is meant
never to matter, because the guard refuses first. This module has the
two facts about the guard that both walks need for that.

A walk that comes back to where it stood inside a name can leave the
name, and then stands where it stood before, with its counts kept
(`Guard.leave_backTo`). And as long as there is `Guard.Room` for the
levels that are left, entering a name leaves room for one level less
(`Room.enter`); with no levels left there is no room
(`Room.not_zero`).

For what the limits mean to a walk, `Guard.levelsLeft` is the number of
names that can still be entered one below the other. A limit refuses a
name only if there are none left, or if the attempts are used up
(`exhausted_of_enter`). So a name that is not on the path is entered as
long as there are both (`enter_of_granted`).
-/

set_option autoImplicit false

namespace OverrideCheck

namespace Guard

/-- The guard with the counts of `g`, standing where `outer` stands. -/
def backTo (g outer : Guard) : Guard := { g with path := outer.path, depth := outer.depth }

@[simp]
theorem backTo_exceeded (g outer : Guard) : (g.backTo outer).exceeded = g.exceeded := rfl

/-- A name that was entered can be left, from the place inside it. -/
theorem leave_backTo {outer inner after : Guard} {name : String}
    (henter : outer.enter name = (.entered, inner)) (hpath : after.path = inner.path)
    (hdepth : after.depth = inner.depth) : after.leave name = .ok (after.backTo outer) := by
  obtain ⟨-, hpath', hdepth', -, -⟩ := enter_entered henter
  rw [leave_top (hpath.trans hpath'), hdepth, hdepth']
  rfl

/-- There is room for this many levels: the walk stands within the
guard's depth, and the levels go beyond it. -/
structure Room (levels : Nat) (g : Guard) : Prop where
  within : g.depth ≤ g.limits.maxDepth
  beyond : g.limits.maxDepth < g.depth + levels

/-- Within the guard's depth there is room for one level more than the
guard can grant. -/
theorem room_of_depth_le {g : Guard} (h : g.depth ≤ g.limits.maxDepth) :
    Room (g.limits.maxDepth + 1) g :=
  ⟨h, by omega⟩

theorem Room.not_zero {g : Guard} : ¬ Room 0 g := by
  rintro ⟨hwithin, hbeyond⟩
  omega

theorem Room.succ {levels : Nat} {g : Guard} (h : Room levels g) : Room (levels + 1) g :=
  ⟨h.within, Nat.lt_succ_of_lt h.beyond⟩

/-- Room is a matter of depth and limits alone. -/
theorem Room.congr {levels : Nat} {g g' : Guard} (h : Room levels g) (hdepth : g'.depth = g.depth)
    (hlimits : g'.limits = g.limits) : Room levels g' := by
  refine ⟨?_, ?_⟩
  · rw [hdepth, hlimits]
    exact h.within
  · rw [hdepth, hlimits]
    exact h.beyond

/-- One level further down there is room for one level less. -/
theorem Room.enter {levels : Nat} {g g' : Guard} {name : String} (h : Room (levels + 1) g)
    (henter : g.enter name = (.entered, g')) : Room levels g' := by
  obtain ⟨-, -, hdepth, hlimits, hlt⟩ := enter_entered henter
  have hbeyond := h.beyond
  refine ⟨?_, ?_⟩
  · rw [hdepth, hlimits]
    exact hlt
  · rw [hdepth, hlimits]
    omega

/-- How many names can still be entered one below the other. -/
def levelsLeft (g : Guard) : Nat := g.limits.maxDepth - g.depth

theorem levelsLeft_denied {g g' : Guard} {name : String} {e : Entry} (h : g.enter name = (e, g'))
    (he : e ≠ .entered) : g'.levelsLeft = g.levelsLeft := by
  obtain ⟨-, hdepth, hlimits⟩ := enter_denied h he
  rw [levelsLeft, hdepth, hlimits]
  rfl

/-- Entering a name uses up one level. -/
theorem levelsLeft_entered {g g' : Guard} {name : String} (h : g.enter name = (.entered, g')) :
    g.levelsLeft = g'.levelsLeft + 1 := by
  obtain ⟨-, -, hdepth, hlimits, hlt⟩ := enter_entered h
  rw [levelsLeft, levelsLeft, hdepth, hlimits]
  omega

/-- Every question counts as an attempt, whatever the answer. -/
theorem attempts_enter {g g' : Guard} {name : String} {e : Entry} (h : g.enter name = (e, g')) :
    g'.attempts = min (g.attempts + 1) attemptCeiling := by
  rcases enter_cases g name with ⟨e', -, h'⟩ | ⟨-, h'⟩ | ⟨-, -, h'⟩ <;> rw [h] at h' <;> cases h' <;>
    rfl

theorem limits_enter {g g' : Guard} {name : String} {e : Entry} (h : g.enter name = (e, g')) :
    g'.limits = g.limits := by
  rcases enter_cases g name with ⟨e', -, h'⟩ | ⟨-, h'⟩ | ⟨-, -, h'⟩ <;> rw [h] at h' <;> cases h' <;>
    rfl

/-- A limit refuses a name for one of two reasons: the attempts are used
up, or no level is left. -/
theorem exhausted_of_enter {g g' : Guard} {name : String} {e : Entry} (h : g.enter name = (e, g'))
    (he : e.isExceeded = true) : g.limits.maxAttempts < g'.attempts ∨ g.levelsLeft = 0 := by
  unfold enter at h
  dsimp only at h
  split at h
  · next hattempts =>
    cases h
    exact .inl hattempts
  · split at h
    · next hdepth => exact .inr (Nat.sub_eq_zero_of_le hdepth)
    · split at h <;> cases h <;> cases he

/-- A name is entered only within the attempts that are granted. -/
theorem attempts_le_of_entered {g g' : Guard} {name : String}
    (h : g.enter name = (.entered, g')) : g'.attempts ≤ g.limits.maxAttempts := by
  unfold enter at h
  dsimp only at h
  split at h
  · cases h
  · next hattempts =>
    split at h
    · cases h
    · split at h <;> cases h
      exact Nat.le_of_not_lt hattempts

/-- A name that is not on the path is entered as long as the limits
grant it. -/
theorem enter_of_granted {g : Guard} {name : String} (hattempts : g.attempts < g.limits.maxAttempts)
    (hdepth : g.depth < g.limits.maxDepth) (hpath : name ∉ g.path) :
    g.enter name =
      (.entered, { g.asked with path := name :: g.path, depth := g.depth + 1 }) := by
  have hcount : g.asked.attempts ≤ g.limits.maxAttempts :=
    Nat.le_trans (Nat.min_le_left _ _) hattempts
  rcases enter_cases g name with ⟨e, he, h⟩ | ⟨hmem, -⟩ | ⟨-, -, h⟩
  · rcases exhausted_of_enter h he with hused | hnone
    · exact absurd hcount (Nat.not_le.2 hused)
    · exact absurd hdepth (Nat.not_lt.2 (Nat.sub_eq_zero_iff_le.1 hnone))
  · exact absurd hmem hpath
  · exact h

end Guard

end OverrideCheck
