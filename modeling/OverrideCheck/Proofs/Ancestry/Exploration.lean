import OverrideCheck.Ancestry
import OverrideCheck.Proofs.Guard

/-!
# `OverrideCheck.Proofs.Ancestry.Exploration`: the runs of the ancestor walk

The walk that collects the ancestors of a definition is written for
running, like the search of the narrowing. This module states its runs
as derivations.

* `Walk.Exploration w names s s'`: the walk goes through a list of
  names, a rule for what happens to the first one. A run of `explore`
  with enough levels is one (`exploration_of_explore`). Going through
  one class after the other is going through their lists in a row
  (`exploration_of_exploreClasses`).
* `Ancestors.Collection w d a`: the whole walk from a definition, a
  rule for each kind. `collection_of_collect` shows that `collect` is
  one. The guard of a new walk lets the first interface in, so that
  rule has no exception.
-/

set_option autoImplicit false

namespace OverrideCheck

namespace Ancestors

namespace Walk

/-- The walk with one more name met. -/
def mark (s : Walk) (name : String) : Walk := { s with seen := name :: s.seen }

/-- The walk after it has met an interface under a name and asked the
guard. -/
def visit (s : Walk) (name : String) (i : InterfaceDef) (guard : Guard) : Walk :=
  { (s.mark name).addInterface i with guard }

/-- The walk through a list of names, from one state to the next. -/
inductive Exploration (w : World) : List String → Walk → Walk → Prop where
  /-- No name is left. -/
  | done {s : Walk} : Exploration w [] s s
  /-- The name is on the path: a cycle. -/
  | returned {name : String} {names : List String} {s s' : Walk} (hpath : name ∈ s.guard.path)
      (rest : Exploration w names (s.addCycle name) s') : Exploration w (name :: names) s s'
  /-- The name was met before. -/
  | met {name : String} {names : List String} {s s' : Walk} (hpath : name ∉ s.guard.path)
      (hseen : name ∈ s.seen) (rest : Exploration w names s s') :
      Exploration w (name :: names) s s'
  /-- The name stands for nothing. -/
  | unresolved {name : String} {names : List String} {s s' : Walk} (hpath : name ∉ s.guard.path)
      (hnew : name ∉ s.seen) (hnone : w.resolve name = none)
      (rest : Exploration w names ((s.mark name).addUnresolved name) s') :
      Exploration w (name :: names) s s'
  /-- The name stands for a class or an enumeration. -/
  | other {name : String} {names : List String} {s s' : Walk} {d : TypeDef}
      (hpath : name ∉ s.guard.path) (hnew : name ∉ s.seen) (hsome : w.resolve name = some d)
      (hkind : ∀ i, d ≠ .interface i) (rest : Exploration w names (s.mark name) s') :
      Exploration w (name :: names) s s'
  /-- The interface calls itself by a name on the path: a cycle. -/
  | cycle {name : String} {names : List String} {s s' : Walk} {i : InterfaceDef} {guard : Guard}
      (hpath : name ∉ s.guard.path) (hnew : name ∉ s.seen)
      (hsome : w.resolve name = some (.interface i))
      (henter : s.guard.enter i.fqn = (.cycle, guard))
      (rest : Exploration w names ((s.visit name i guard).addCycle i.fqn) s') :
      Exploration w (name :: names) s s'
  /-- A limit keeps the walk out of the interface. -/
  | cut {name : String} {names : List String} {s s' : Walk} {i : InterfaceDef} {e : Entry}
      {guard : Guard} (hpath : name ∉ s.guard.path) (hnew : name ∉ s.seen)
      (hsome : w.resolve name = some (.interface i)) (henter : s.guard.enter i.fqn = (e, guard))
      (he : e.isExceeded = true)
      (rest : Exploration w names ((s.visit name i guard).addLimit i.fqn) s') :
      Exploration w (name :: names) s s'
  /-- The walk goes through what the interface lists, and then on. -/
  | entered {name : String} {names : List String} {s s₁ s' : Walk} {i : InterfaceDef}
      {guard : Guard} (hpath : name ∉ s.guard.path) (hnew : name ∉ s.seen)
      (hsome : w.resolve name = some (.interface i))
      (henter : s.guard.enter i.fqn = (.entered, guard))
      (inner : Exploration w i.interfaces (s.visit name i guard) s₁)
      (rest : Exploration w names { s₁ with guard := s₁.guard.backTo s.guard } s') :
      Exploration w (name :: names) s s'

variable {w : World}

/-- Two lists in a row. -/
theorem Exploration.append {names more : List String} {s s₁ s' : Walk}
    (h : Exploration w names s s₁) (rest : Exploration w more s₁ s') :
    Exploration w (names ++ more) s s' := by
  induction h with
  | done => exact rest
  | returned hpath _ ih => exact .returned hpath (ih rest)
  | met hpath hseen _ ih => exact .met hpath hseen (ih rest)
  | unresolved hpath hnew hnone _ ih => exact .unresolved hpath hnew hnone (ih rest)
  | other hpath hnew hsome hkind _ ih => exact .other hpath hnew hsome hkind (ih rest)
  | cycle hpath hnew hsome henter _ ih => exact .cycle hpath hnew hsome henter (ih rest)
  | cut hpath hnew hsome henter he _ ih => exact .cut hpath hnew hsome henter he (ih rest)
  | entered hpath hnew hsome henter inner _ _ ih =>
    exact .entered hpath hnew hsome henter inner (ih rest)

theorem meetAll_cons {meet : String → Walk → Progress} {name : String} {names : List String}
    {s s' : Walk} (h : meetAll meet (name :: names) s = .ok s') :
    ∃ s₁, meet name s = .ok s₁ ∧ meetAll meet names s₁ = .ok s' := by
  unfold meetAll at h
  rcases hm : meet name s with m | s₁
  · rw [hm] at h
    cases h
  · rw [hm] at h
    exact ⟨s₁, rfl, h⟩

/-- What the walk above an interface does, by the guard's answer. -/
theorem above_cases {go : List String → Walk → Progress} (hgo : ∀ names, Returns (go names))
    {i : InterfaceDef} {s s' : Walk} (h : above go i s = .ok s') :
    (∃ guard, s.guard.enter i.fqn = (.cycle, guard) ∧ s' = { s with guard }.addCycle i.fqn) ∨
    (∃ e guard, s.guard.enter i.fqn = (e, guard) ∧ e.isExceeded = true ∧
      s' = { s with guard }.addLimit i.fqn) ∨
    ∃ guard s₁, s.guard.enter i.fqn = (.entered, guard) ∧ go i.interfaces { s with guard } = .ok s₁ ∧
      s' = { s₁ with guard := s₁.guard.backTo s.guard } := by
  rcases henter : s.guard.enter i.fqn with ⟨e, guard⟩
  simp only [above, henter] at h
  cases e with
  | entered =>
    obtain ⟨s₁, hrun, same⟩ := hgo i.interfaces { s with guard }
    have hleave := Guard.leave_backTo henter same.path same.depth
    simp only [hrun, bind, Except.bind, hleave, pure, Except.pure] at h
    cases h
    exact .inr (.inr ⟨guard, s₁, rfl, hrun, rfl⟩)
  | cycle =>
    cases h
    exact .inl ⟨guard, rfl, rfl⟩
  | depthExceeded | attemptsExceeded =>
    cases h
    exact .inr (.inl ⟨_, guard, rfl, rfl, rfl⟩)

/-- Runs of `explore` with this many levels are derivations. -/
def RunsAreExplorations (w : World) (levels : Nat) : Prop :=
  ∀ {names : List String} {s s' : Walk}, s.guard.Room levels →
    explore w levels names s = .ok s' → Exploration w names s s'

/-- What meeting a name does is the first rule of a derivation, if runs
with one level less are derivations. -/
theorem exploration_cons_of_meet {levels : Nat} (hruns : RunsAreExplorations w levels)
    {name : String} {names : List String} {s s₁ s' : Walk} (hroom : s.guard.Room (levels + 1))
    (h : meet w (explore w levels) name s = .ok s₁) (rest : Exploration w names s₁ s') :
    Exploration w (name :: names) s s' := by
  unfold meet at h
  split at h
  · next hpath =>
    cases h
    exact .returned (of_decide_eq_true hpath) rest
  · next hpath =>
    have hpath : name ∉ s.guard.path := by simpa [Guard.isVisiting] using hpath
    split at h
    · next hseen =>
      cases h
      exact .met hpath hseen rest
    · next hnew =>
      dsimp only at h
      split at h
      · next i hsome =>
        rcases above_cases (returns_explore w levels) h with
          ⟨guard, henter, rfl⟩ | ⟨e, guard, henter, he, rfl⟩ | ⟨guard, s₂, henter, hrun, rfl⟩
        · exact .cycle hpath hnew hsome henter rest
        · exact .cut hpath hnew hsome henter he rest
        · exact .entered hpath hnew hsome henter (hruns (hroom.enter henter) hrun) rest
      · next d hkind hsome =>
        cases h
        exact .other hpath hnew hsome hkind rest
      · next hnone =>
        cases h
        exact .unresolved hpath hnew hnone rest

/-- A run through a list of names is a derivation, if runs with one
level less are. -/
theorem exploration_of_meetAll {levels : Nat} (hruns : RunsAreExplorations w levels) :
    ∀ {names : List String} {s s' : Walk}, s.guard.Room (levels + 1) →
      meetAll (meet w (explore w levels)) names s = .ok s' → Exploration w names s s'
  | [], s, s', _, h => by
    cases h
    exact .done
  | name :: names, s, s', hroom, h => by
    obtain ⟨s₁, hmeet, hrest⟩ := meetAll_cons h
    obtain ⟨s₁', hmeet', same⟩ := returns_meet w (returns_explore w levels) name s
    rw [hmeet] at hmeet'
    cases hmeet'
    exact exploration_cons_of_meet hruns hroom hmeet
      (exploration_of_meetAll hruns (hroom.congr same.depth same.limits) hrest)

/-- Every run of the walk is a derivation, if it has room for its
levels. -/
theorem exploration_of_explore (w : World) (levels : Nat) : RunsAreExplorations w levels := by
  induction levels with
  | zero =>
    -- The guard has refused before the levels run out.
    intro names s s' hroom h
    exact absurd hroom Guard.Room.not_zero
  | succ levels ih =>
    intro names s s' hroom h
    exact exploration_of_meetAll ih hroom h

/-- Going through the lists of one class after the other is going
through them in a row. -/
theorem exploration_of_exploreClasses :
    ∀ {classes : List ClassDef} {s s' : Walk}, s.guard.depth ≤ s.guard.limits.maxDepth →
      exploreClasses w classes s = .ok s' →
      Exploration w (classes.flatMap (·.interfaces)) s s'
  | [], s, s', _, h => by
    cases h
    exact .done
  | c :: classes, s, s', hdepth, h => by
    obtain ⟨s₁, hrun, same⟩ := returns_explore w s.levels c.interfaces s
    have first : Exploration w c.interfaces s s₁ :=
      exploration_of_explore w s.levels (Guard.room_of_depth_le hdepth) hrun
    simp only [exploreClasses, hrun, bind, Except.bind] at h
    have hdepth₁ : s₁.guard.depth ≤ s₁.guard.limits.maxDepth := by
      rw [same.depth, same.limits]
      exact hdepth
    rw [List.flatMap_cons]
    exact first.append (exploration_of_exploreClasses hdepth₁ h)

end Walk

open Walk (Exploration)

/-- The whole walk from a definition. -/
inductive Collection (w : World) : TypeDef → Ancestors → Prop where
  /-- The lists of the class and of its lineage, and how that ended. -/
  | ofClass {c : ClassDef} {s : Walk}
      (h : Exploration w ((c :: (w.lineage c).bases).flatMap (·.interfaces))
        { found.bases := (w.lineage c).bases } s) :
      Collection w (.class c) (s.addEnding (w.lineage c).ending).found
  /-- What the interface lists, with the interface itself met and on
  the path. -/
  | ofInterface {i : InterfaceDef} {guard : Guard} {s : Walk} (hpath : guard.path = [i.fqn])
      (h : Exploration w i.interfaces { guard, seen := [i.fqn] } s) :
      Collection w (.interface i) s.found
  | ofEnum {e : EnumDef} : Collection w (.enum e) {}

/-- A new guard lets any name in. -/
theorem exists_enter_new (name : String) :
    ∃ guard, Guard.enter { limits := .inheritance } name = (.entered, guard) ∧
      guard.path = [name] :=
  ⟨_, rfl, rfl⟩

/-- What `collect` gives is collected by such a walk. -/
theorem collection_of_collect (w : World) (d : TypeDef) : Collection w d (collect w d) := by
  cases d with
  | «class» c =>
    obtain ⟨s, hrun, -⟩ := Walk.returns_exploreClasses w (c :: (w.lineage c).bases)
      { found.bases := (w.lineage c).bases }
    have hcollect : collect w (.class c) = (s.addEnding (w.lineage c).ending).found :=
      collect_eq (by simp only [Walk.run, hrun, bind, Except.bind]; rfl)
    rw [hcollect]
    exact .ofClass (Walk.exploration_of_exploreClasses (Nat.zero_le _) hrun)
  | interface i =>
    obtain ⟨guard, henter, hpath⟩ := exists_enter_new i.fqn
    obtain ⟨s, hrun, -⟩ := Walk.returns_above (Walk.returns_explore w _) i { seen := [i.fqn] }
    have hcollect : collect w (.interface i) = s.found := collect_eq hrun
    rw [hcollect]
    rcases Walk.above_cases (Walk.returns_explore w _) hrun with
      ⟨guard', henter', rfl⟩ | ⟨e, guard', henter', he, rfl⟩ | ⟨guard', s₁, henter', hinner, rfl⟩
    -- A new guard has an empty path and its whole budget, so it lets the name in.
    · cases henter.symm.trans henter'
    · cases henter.symm.trans henter'
      cases he
    · cases henter.symm.trans henter'
      have hroom := (Guard.room_of_depth_le (Nat.zero_le _)).succ.enter henter
      exact .ofInterface (s := s₁) hpath (Walk.exploration_of_explore w _ hroom hinner)
  | enum e =>
    have hcollect : collect w (.enum e) = {} := collect_eq (s := {}) rfl
    rw [hcollect]
    exact .ofEnum

end Ancestors

end OverrideCheck
