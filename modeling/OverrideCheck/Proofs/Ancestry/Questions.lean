import OverrideCheck.Proofs.Ancestry.Coverage

/-!
# `OverrideCheck.Proofs.Ancestry.Questions`: what the ancestor walk asks the guard

The guard of a walk counts how often it is asked, up to a ceiling, and
keeps no record of the names. For which names it is asked while the
ancestors of a definition are collected is said by `Walk.questions` and
the functions before it, one for each function of the walk: they follow
the same run and list the names in their order.

The walk asks for an interface when it writes it down, and at no other
time. Only an interface that the walk starts at is asked for and not
written down. So the list can be read off the result
(`questions_eq`), whatever the world is and whatever the guard answers.
-/

set_option autoImplicit false

namespace OverrideCheck

/-- The name of the definition, if that is an interface. It counts as
met from the start of the walk. -/
def TypeDef.ownNames : TypeDef → List String
  | .interface i => [i.fqn]
  | _ => []

theorem TypeDef.length_ownNames_le (d : TypeDef) : d.ownNames.length ≤ 1 := by
  cases d <;> simp [ownNames]

theorem TypeDef.nodup_ownNames (d : TypeDef) : d.ownNames.Nodup := by
  cases d <;> simp [ownNames]

theorem TypeDef.reverse_ownNames (d : TypeDef) : d.ownNames.reverse = d.ownNames := by
  cases d <;> rfl

namespace Ancestors

namespace Walk

/-- The names that the guard is asked for while a list of names is met,
one after the other. -/
def questionsInTurn (meet : String → Walk → Progress) (asked : String → Walk → List String) :
    List String → Walk → List String
  | [], _ => []
  | name :: names, s =>
    asked name s ++
      match meet name s with
      | .ok s => questionsInTurn meet asked names s
      | .error _ => []

/-- The names that the guard is asked for above an interface, apart from
the name of the interface itself. -/
def questionsInside (asked : List String → Walk → List String) (i : InterfaceDef) (s : Walk) :
    List String :=
  match s.guard.enter i.fqn with
  | (.entered, guard) => asked i.interfaces { s with guard }
  | _ => []

/-- The names that the guard is asked for on behalf of a listed name. -/
def questionsFor (w : World) (asked : List String → Walk → List String) (name : String)
    (s : Walk) : List String :=
  if s.guard.isVisiting name then []
  else if name ∈ s.seen then []
  else
    let s := { s with seen := name :: s.seen }
    match w.resolve name with
    | some (.interface i) => i.fqn :: questionsInside asked i (s.addInterface i)
    | _ => []

/-- The names that the guard is asked for by a walk through a list, with
at most this many levels. -/
def questionsIn (w : World) : Nat → List String → Walk → List String
  | 0, _, _ => []
  | levels + 1, names, s =>
    questionsInTurn (meet w (explore w levels)) (questionsFor w (questionsIn w levels)) names s

/-- The names that the guard is asked for by one class after the
other. -/
def questionsOfClasses (w : World) : List ClassDef → Walk → List String
  | [], _ => []
  | c :: rest, s =>
    questionsIn w s.levels c.interfaces s ++
      match explore w s.levels c.interfaces s with
      | .ok s => questionsOfClasses w rest s
      | .error _ => []

/-- The names that the guard is asked for by the walk from a definition,
in their order. -/
def questions (w : World) : TypeDef → List String
  | .class c =>
    let lineage := w.lineage c
    questionsOfClasses w (c :: lineage.bases) { found.bases := lineage.bases }
  | .interface i =>
    let s : Walk := { seen := [i.fqn] }
    i.fqn :: questionsInside (questionsIn w s.levels) i s
  | .enum _ => []

/-- The step asks for the interfaces that it writes down. -/
def Logs (step : Walk → Progress) (asked : Walk → List String) : Prop :=
  ∀ {s s' : Walk}, step s = .ok s' →
    s'.found.interfaces.map (·.fqn) = s.found.interfaces.map (·.fqn) ++ asked s

variable {w : World}

theorem logs_above {go : List String → Walk → Progress} {asked : List String → Walk → List String}
    (hreturns : ∀ names, Returns (go names)) (h : ∀ names, Logs (go names) (asked names))
    (i : InterfaceDef) : Logs (above go i) (questionsInside asked i) := by
  intro s s' hs
  unfold questionsInside
  rcases above_cases hreturns hs with
    ⟨guard, henter, rfl⟩ | ⟨e, guard, henter, he, rfl⟩ | ⟨guard, s₁, henter, hrun, rfl⟩
  · rw [henter]
    exact (List.append_nil _).symm
  · rw [henter]
    cases e with
    | entered | cycle => cases he
    | depthExceeded | attemptsExceeded => exact (List.append_nil _).symm
  · rw [henter]
    exact h i.interfaces hrun

theorem logs_meet {go : List String → Walk → Progress} {asked : List String → Walk → List String}
    (hreturns : ∀ names, Returns (go names)) (h : ∀ names, Logs (go names) (asked names))
    (name : String) : Logs (meet w go name) (questionsFor w asked name) := by
  intro s s' hs
  unfold meet at hs
  unfold questionsFor
  split at hs
  · next hpath =>
    cases hs
    rw [if_pos hpath]
    exact (List.append_nil _).symm
  · next hpath =>
    rw [if_neg hpath]
    split at hs
    · next hseen =>
      cases hs
      rw [if_pos hseen]
      exact (List.append_nil _).symm
    · next hnew =>
      rw [if_neg hnew]
      dsimp only at hs ⊢
      split at hs
      · next i hsome =>
        rw [hsome]
        -- The interface is written down before the guard is asked.
        have hinside := logs_above hreturns h i hs
        rw [hinside]
        simp [addInterface]
      · next d hkind hsome =>
        cases hs
        rw [hsome]
        cases d with
        | interface i => exact absurd rfl (hkind i)
        | «class» c => exact (List.append_nil _).symm
        | enum e => exact (List.append_nil _).symm
      · next hnone =>
        cases hs
        rw [hnone]
        exact (List.append_nil _).symm

theorem logs_meetAll {meet : String → Walk → Progress} {asked : String → Walk → List String}
    (h : ∀ name, Logs (meet name) (asked name)) :
    ∀ names, Logs (meetAll meet names) (questionsInTurn meet asked names) := by
  intro names
  induction names with
  | nil =>
    intro s s' hs
    cases hs
    exact (List.append_nil _).symm
  | cons name names ih =>
    intro s s' hs
    obtain ⟨s₁, hmeet, hrest⟩ := meetAll_cons hs
    rw [questionsInTurn, hmeet]
    rw [ih hrest, h name hmeet, List.append_assoc]

theorem logs_explore (w : World) (levels : Nat) :
    ∀ names, Logs (explore w levels names) (questionsIn w levels names) := by
  induction levels with
  | zero =>
    intro names s s' hs
    cases hs
    exact (List.append_nil _).symm
  | succ levels ih =>
    intro names
    exact logs_meetAll (logs_meet (returns_explore w levels) ih) names

theorem logs_exploreClasses (w : World) (classes : List ClassDef) :
    Logs (exploreClasses w classes) (questionsOfClasses w classes) := by
  induction classes with
  | nil =>
    intro s s' hs
    cases hs
    exact (List.append_nil _).symm
  | cons c rest ih =>
    intro s s' hs
    obtain ⟨s₁, hrun, -⟩ := returns_explore w s.levels c.interfaces s
    simp only [exploreClasses, hrun, bind, Except.bind] at hs
    rw [questionsOfClasses, hrun]
    rw [ih hs, logs_explore w s.levels c.interfaces hrun, List.append_assoc]

end Walk

/-- The guard is asked for the definition itself, if that is an
interface, and for each interface that is found, in the same order. -/
theorem questions_eq (w : World) (d : TypeDef) :
    Walk.questions w d = d.ownNames ++ (collect w d).interfaces.map (·.fqn) := by
  cases d with
  | «class» c =>
    obtain ⟨s, hrun, -⟩ := Walk.returns_exploreClasses w (c :: (w.lineage c).bases)
      { found.bases := (w.lineage c).bases }
    have hcollect : collect w (.class c) = (s.addEnding (w.lineage c).ending).found :=
      collect_eq (by simp only [Walk.run, hrun, bind, Except.bind]; rfl)
    rw [hcollect, Walk.addEnding_interfaces, Walk.logs_exploreClasses w _ hrun]
    rfl
  | interface i =>
    obtain ⟨s, hrun, -⟩ := Walk.returns_above (Walk.returns_explore w _) i { seen := [i.fqn] }
    have hcollect : collect w (.interface i) = s.found := collect_eq hrun
    rw [hcollect, Walk.logs_above (Walk.returns_explore w _) (Walk.logs_explore w _) i hrun]
    rfl
  | enum e =>
    have hcollect : collect w (.enum e) = {} := collect_eq (s := {}) rfl
    rw [hcollect]
    rfl

end Ancestors

end OverrideCheck
