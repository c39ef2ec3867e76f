import OverrideCheck.Proofs.Guard
import OverrideCheck.Proofs.Narrowing.BaseChain

/-!
# `OverrideCheck.Proofs.Narrowing.Derivation`: the runs of a query

The checker is written for running: the search recurses on a number of
levels, carries its state through `Except`, and leaves by name what it
entered by name. None of this matters for the answer. This module
states the runs of a query as derivations, one rule for each thing that
can happen, and every fact about a query is then a short induction.

* `Checker.Search w target names c found c'`: a search for the target
  through a list of names, a rule for what happens to the first name.
  `search_of_reaches` shows that a run of `reaches` is one, provided
  that it has as many levels as the guard can still grant
  (`Guard.Room`). The level count disappears there: the guard refuses
  a level before the count runs out. Searching above an interface is
  searching the list that holds its name alone
  (`search_of_interfaceExtends`), and searching one class after the
  other is searching their lists in a row (`search_of_anyLists`).
* `Checker.Verdict w s t c answer`: the comparison of two different
  names, a rule for each pair of kinds (`verdict_of_checkNamed`).
* `Checker.Comparison w s t c found g`: the same without the reasons
  (`comparison_of_checkNamed`).
* `Checker.Descent w sub sup c found g`: the comparison of two
  references through their array layers (`descent_of_checkRef`).

The last two keep only the guard of the checker that comes out. The
reasons that it has collected are no part of an answer.
-/

set_option autoImplicit false

namespace OverrideCheck

namespace Checker

/-- The checker after a search above the interface `fqn`, which started
when the guard was `outer`. A failure is remembered, unless a limit was
hit in the query. -/
def retreat (c : Checker) (outer : Guard) (fqn : String) (found : Bool) : Checker :=
  { c with
    guard := c.guard.backTo outer
    explored := if found || c.guard.exceeded then c.explored else fqn :: c.explored }

/-- A search for the target through a list of names, from one checker
to the next, with its answer. -/
inductive Search (w : World) (target : String) : List String → Checker → Bool → Checker → Prop where
  /-- No name is left. -/
  | exhausted {c : Checker} : Search w target [] c false c
  /-- The target is listed. -/
  | hit {names : List String} {c : Checker} : Search w target (target :: names) c true c
  /-- The name was searched before, in vain. -/
  | known {name : String} {names : List String} {c c' : Checker} {found : Bool}
      (hne : name ≠ target) (hknown : name ∈ c.explored)
      (rest : Search w target names c found c') : Search w target (name :: names) c found c'
  /-- The name stands for nothing. -/
  | unresolved {name : String} {names : List String} {c c' : Checker} {found : Bool}
      (hne : name ≠ target) (hnew : name ∉ c.explored) (hnone : w.resolve name = none)
      (rest : Search w target names (c.note (.unresolvedType name)) found c') :
      Search w target (name :: names) c found c'
  /-- The name stands for a class or an enumeration. -/
  | other {name : String} {names : List String} {c c' : Checker} {found : Bool} {d : TypeDef}
      (hne : name ≠ target) (hnew : name ∉ c.explored) (hsome : w.resolve name = some d)
      (hkind : ∀ i, d ≠ .interface i) (rest : Search w target names c found c') :
      Search w target (name :: names) c found c'
  /-- The interface is on the path already. -/
  | cycle {name : String} {names : List String} {c c' : Checker} {found : Bool}
      {i : InterfaceDef} {guard : Guard} (hne : name ≠ target) (hnew : name ∉ c.explored)
      (hsome : w.resolve name = some (.interface i))
      (henter : c.guard.enter i.fqn = (.cycle, guard))
      (rest : Search w target names ({ c with guard }.note (.inheritanceCycle i.fqn)) found c') :
      Search w target (name :: names) c found c'
  /-- A limit keeps the search out of the interface. -/
  | cut {name : String} {names : List String} {c c' : Checker} {found : Bool}
      {i : InterfaceDef} {e : Entry} {guard : Guard} (hne : name ≠ target)
      (hnew : name ∉ c.explored) (hsome : w.resolve name = some (.interface i))
      (henter : c.guard.enter i.fqn = (e, guard)) (he : e.isExceeded = true)
      (rest : Search w target names ({ c with guard }.note (.walkLimitExceeded (.named i.fqn)))
        found c') :
      Search w target (name :: names) c found c'
  /-- The target is above the interface. -/
  | above {name : String} {names : List String} {c c₁ : Checker} {i : InterfaceDef}
      {guard : Guard} (hne : name ≠ target) (hnew : name ∉ c.explored)
      (hsome : w.resolve name = some (.interface i))
      (henter : c.guard.enter i.fqn = (.entered, guard))
      (inner : Search w target i.interfaces { c with guard } true c₁) :
      Search w target (name :: names) c true (c₁.retreat c.guard i.fqn true)
  /-- The target was not found above the interface. -/
  | failed {name : String} {names : List String} {c c₁ c' : Checker} {found : Bool}
      {i : InterfaceDef} {guard : Guard} (hne : name ≠ target) (hnew : name ∉ c.explored)
      (hsome : w.resolve name = some (.interface i))
      (henter : c.guard.enter i.fqn = (.entered, guard))
      (inner : Search w target i.interfaces { c with guard } false c₁)
      (rest : Search w target names (c₁.retreat c.guard i.fqn false) found c') :
      Search w target (name :: names) c found c'

variable {w : World} {target : String}

namespace Search

/-- What was found in a list is found when the list goes on. -/
theorem append_found {names : List String} {c c' : Checker} {found : Bool}
    (h : Search w target names c found c') (more : List String) (hfound : found = true) :
    Search w target (names ++ more) c true c' := by
  induction h with
  | exhausted => cases hfound
  | hit => exact .hit
  | known hne hknown _ ih => exact .known hne hknown (ih hfound)
  | unresolved hne hnew hnone _ ih => exact .unresolved hne hnew hnone (ih hfound)
  | other hne hnew hsome hkind _ ih => exact .other hne hnew hsome hkind (ih hfound)
  | cycle hne hnew hsome henter _ ih => exact .cycle hne hnew hsome henter (ih hfound)
  | cut hne hnew hsome henter he _ ih => exact .cut hne hnew hsome henter he (ih hfound)
  | above hne hnew hsome henter inner _ => exact .above hne hnew hsome henter inner
  | failed hne hnew hsome henter inner _ _ ih =>
    exact .failed hne hnew hsome henter inner (ih hfound)

/-- A search that failed in one list goes on in the next. -/
theorem append_failed {names : List String} {c c₁ : Checker} {found : Bool}
    (h : Search w target names c found c₁) (hfound : found = false) {more : List String}
    {c' : Checker} {answer : Bool} (rest : Search w target more c₁ answer c') :
    Search w target (names ++ more) c answer c' := by
  induction h with
  | exhausted => exact rest
  | hit => cases hfound
  | known hne hknown _ ih => exact .known hne hknown (ih hfound rest)
  | unresolved hne hnew hnone _ ih => exact .unresolved hne hnew hnone (ih hfound rest)
  | other hne hnew hsome hkind _ ih => exact .other hne hnew hsome hkind (ih hfound rest)
  | cycle hne hnew hsome henter _ ih => exact .cycle hne hnew hsome henter (ih hfound rest)
  | cut hne hnew hsome henter he _ ih => exact .cut hne hnew hsome henter he (ih hfound rest)
  | above => cases hfound
  | failed hne hnew hsome henter inner _ _ ih =>
    exact .failed hne hnew hsome henter inner (ih hfound rest)

/-- A search comes back to the path that it started from. -/
theorem path_eq {names : List String} {c c' : Checker} {found : Bool}
    (h : Search w target names c found c') : c'.guard.path = c.guard.path := by
  induction h with
  | exhausted | hit | above => rfl
  | known _ _ _ ih | unresolved _ _ _ _ ih | other _ _ _ _ _ ih | failed _ _ _ _ _ _ _ ih =>
    exact ih
  | cycle _ _ _ henter _ ih => exact ih.trans (Guard.enter_denied henter nofun).1
  | cut _ _ _ henter he _ ih =>
    exact ih.trans (Guard.enter_denied henter (by rintro rfl; cases he)).1

/-- A limit that was hit stays hit. -/
theorem exceeded_mono {names : List String} {c c' : Checker} {found : Bool}
    (h : Search w target names c found c') (hc' : c'.guard.exceeded = false) :
    c.guard.exceeded = false := by
  have before {g guard : Guard} {fqn : String} {e : Entry} (henter : g.enter fqn = (e, guard))
      (hg : guard.exceeded = false) : g.exceeded = false := by
    rw [Guard.exceeded_enter henter, Bool.or_eq_false_iff] at hg
    exact hg.1
  induction h with
  | exhausted | hit => exact hc'
  | known _ _ _ ih | unresolved _ _ _ _ ih | other _ _ _ _ _ ih => exact ih hc'
  | cycle _ _ _ henter _ ih | cut _ _ _ henter _ _ ih => exact before henter (ih hc')
  | above _ _ _ henter _ ih => exact before henter (ih hc')
  | failed _ _ _ henter _ _ ihInner ih => exact before henter (ihInner (ih hc'))

end Search

/-- The first name either ends the run through a list or hands the
checker on to the rest of it. -/
theorem firstFound_cons {visit : String → Checker → Answer} {name : String} {names : List String}
    {c c' : Checker} {answer : Bool}
    (h : firstFound visit (name :: names) c = .ok (answer, c')) :
    (answer = true ∧ visit name c = .ok (true, c')) ∨
    ∃ c₁, visit name c = .ok (false, c₁) ∧ firstFound visit names c₁ = .ok (answer, c') := by
  unfold firstFound at h
  rcases hv : visit name c with m | ⟨found, c₁⟩
  · rw [hv] at h
    cases h
  · rw [hv] at h
    cases found with
    | true =>
      cases h
      exact .inl ⟨rfl, rfl⟩
    | false => exact .inr ⟨c₁, rfl, h⟩

/-- What a search above an interface does, by the guard's answer. -/
theorem above_cases {search : List String → Checker → Answer}
    (hsearch : ∀ names, Returns (search names)) {i : InterfaceDef} {c c' : Checker} {found : Bool}
    (h : above search i c = .ok (found, c')) :
    (∃ guard, c.guard.enter i.fqn = (.cycle, guard) ∧ found = false ∧
      c' = { c with guard }.note (.inheritanceCycle i.fqn)) ∨
    (∃ e guard, c.guard.enter i.fqn = (e, guard) ∧ e.isExceeded = true ∧ found = false ∧
      c' = { c with guard }.note (.walkLimitExceeded (.named i.fqn))) ∨
    ∃ guard c₁, c.guard.enter i.fqn = (.entered, guard) ∧
      search i.interfaces { c with guard } = .ok (found, c₁) ∧
      c' = c₁.retreat c.guard i.fqn found := by
  rcases henter : c.guard.enter i.fqn with ⟨e, guard⟩
  simp only [above, henter] at h
  cases e with
  | entered =>
    obtain ⟨found₁, c₁, hrun, same⟩ := hsearch i.interfaces { c with guard }
    have hleave := Guard.leave_backTo henter same.path same.depth
    simp only [hrun, bind, Except.bind, hleave, pure, Except.pure] at h
    refine .inr (.inr ⟨guard, c₁, rfl, ?_⟩)
    split at h
    · next hkeep =>
      cases h
      rw [Guard.backTo_exceeded] at hkeep
      exact ⟨hrun, by simp [retreat, hkeep]⟩
    · next hkeep =>
      cases h
      obtain ⟨rfl, hex⟩ : found₁ = false ∧ c₁.guard.exceeded = false := by
        simpa using hkeep
      exact ⟨hrun, by simp [retreat, hex]⟩
  | cycle =>
    cases h
    exact .inl ⟨guard, rfl, rfl, rfl⟩
  | depthExceeded | attemptsExceeded =>
    cases h
    exact .inr (.inl ⟨_, guard, rfl, rfl, rfl, rfl⟩)

/-- Runs of `reaches` with this many levels are derivations. -/
def RunsAreSearches (w : World) (target : String) (levels : Nat) : Prop :=
  ∀ {names : List String} {c c' : Checker} {found : Bool}, c.guard.Room levels →
    reaches w target levels names c = .ok (found, c') → Search w target names c found c'

/-- A run above the interface of the first name is the first rule of a
derivation: it ends the search, or the rest of the list follows. -/
theorem search_cons_of_above {levels : Nat} (hruns : RunsAreSearches w target levels)
    {name : String} (names : List String) {i : InterfaceDef} {c c₁ : Checker} {found : Bool}
    (hroom : c.guard.Room (levels + 1)) (hne : name ≠ target) (hnew : name ∉ c.explored)
    (hsome : w.resolve name = some (.interface i))
    (h : above (reaches w target levels) i c = .ok (found, c₁)) :
    (found = true → Search w target (name :: names) c true c₁) ∧
    (found = false → ∀ {answer : Bool} {c' : Checker}, Search w target names c₁ answer c' →
      Search w target (name :: names) c answer c') := by
  rcases above_cases (returns_reaches w target levels) h with
    ⟨guard, henter, rfl, rfl⟩ | ⟨e, guard, henter, he, rfl, rfl⟩ | ⟨guard, c₂, henter, hrun, rfl⟩
  · exact ⟨nofun, fun _ _ _ rest => .cycle hne hnew hsome henter rest⟩
  · exact ⟨nofun, fun _ _ _ rest => .cut hne hnew hsome henter he rest⟩
  · have inner := hruns (hroom.enter henter) hrun
    refine ⟨?_, ?_⟩
    · rintro rfl
      exact .above hne hnew hsome henter inner
    · rintro rfl answer c' rest
      exact .failed hne hnew hsome henter inner rest

/-- A run through a list of names is a derivation, if runs with one
level less are. -/
theorem search_of_firstFound {levels : Nat} (hruns : RunsAreSearches w target levels) :
    ∀ {names : List String} {c c' : Checker} {found : Bool}, c.guard.Room (levels + 1) →
      firstFound (leadsTo w target (reaches w target levels)) names c = .ok (found, c') →
      Search w target names c found c'
  | [], c, c', found, _, h => by
    cases h
    exact .exhausted
  | name :: names, c, c', found, hroom, h => by
    have first := firstFound_cons h
    unfold leadsTo at first
    split at first
    · next heq =>
      subst heq
      rcases first with ⟨rfl, h₁⟩ | ⟨c₁, h₁, -⟩
      · cases h₁
        exact .hit
      · cases h₁
    · next hne =>
      split at first
      · next hknown =>
        rcases first with ⟨-, h₁⟩ | ⟨c₁, h₁, h₂⟩
        · cases h₁
        · cases h₁
          exact .known hne hknown (search_of_firstFound hruns hroom h₂)
      · next hnew =>
        split at first
        · next i hsome =>
          rcases first with ⟨rfl, h₁⟩ | ⟨c₁, h₁, h₂⟩
          · exact (search_cons_of_above hruns names hroom hne hnew hsome h₁).1 rfl
          · have same := (returns_above (returns_reaches w target levels) i).samePlace h₁
            have rest := search_of_firstFound hruns (hroom.congr same.depth same.limits) h₂
            exact (search_cons_of_above hruns names hroom hne hnew hsome h₁).2 rfl rest
        · next d hkind hsome =>
          rcases first with ⟨-, h₁⟩ | ⟨c₁, h₁, h₂⟩
          · cases h₁
          · cases h₁
            exact .other hne hnew hsome hkind (search_of_firstFound hruns hroom h₂)
        · next hnone =>
          rcases first with ⟨-, h₁⟩ | ⟨c₁, h₁, h₂⟩
          · cases h₁
          · cases h₁
            exact .unresolved hne hnew hnone
              (search_of_firstFound hruns hroom h₂)

/-- Every run of the search is a derivation, if it has room for its
levels. -/
theorem search_of_reaches (w : World) (target : String) (levels : Nat) :
    RunsAreSearches w target levels := by
  induction levels with
  | zero =>
    -- The guard has refused before the levels run out.
    intro names c c' found hroom h
    exact absurd hroom Guard.Room.not_zero
  | succ levels ih =>
    intro names c c' found hroom h
    exact search_of_firstFound ih hroom h

/-- Searching above an interface is searching for the target in the
list that holds the interface's name alone. -/
theorem search_of_interfaceExtends {name : String} {i : InterfaceDef} {c c' : Checker}
    {found : Bool} (hdepth : c.guard.depth ≤ c.guard.limits.maxDepth) (hne : name ≠ target)
    (hnew : name ∉ c.explored) (hsome : w.resolve name = some (.interface i))
    (h : interfaceExtends w target i c = .ok (found, c')) :
    Search w target [name] c found c' := by
  have first := search_cons_of_above (search_of_reaches w target c.levels) []
    (Guard.room_of_depth_le hdepth).succ hne hnew hsome h
  cases found with
  | true => exact first.1 rfl
  | false => exact first.2 rfl .exhausted

/-- Searching the lists of one class after the other is searching them
in a row. -/
theorem search_of_anyLists :
    ∀ {classes : List ClassDef} {c c' : Checker} {found : Bool},
      c.guard.depth ≤ c.guard.limits.maxDepth → anyLists w target classes c = .ok (found, c') →
      Search w target (classes.flatMap (·.interfaces)) c found c'
  | [], c, c', found, _, h => by
    cases h
    exact .exhausted
  | k :: classes, c, c', found, hdepth, h => by
    obtain ⟨found₁, c₁, hrun, same⟩ := returns_lists w target k.interfaces c
    have first : Search w target k.interfaces c found₁ c₁ :=
      search_of_reaches w target c.levels (Guard.room_of_depth_le hdepth) hrun
    simp only [anyLists, hrun, bind, Except.bind] at h
    rw [List.flatMap_cons]
    cases found₁ with
    | true =>
      cases h
      exact first.append_found _ rfl
    | false =>
      have hdepth₁ : c₁.guard.depth ≤ c₁.guard.limits.maxDepth := by
        rw [same.depth, same.limits]
        exact hdepth
      exact first.append_failed rfl (search_of_anyLists hdepth₁ h)

/-- The comparison of two different names, with its answer and the
checker afterwards. -/
inductive Verdict (w : World) (s t : String) (c : Checker) : Bool × Checker → Prop where
  /-- The first name stands for nothing. -/
  | unresolvedSub (hs : w.resolve s = none) :
      Verdict w s t c (false, { c with explored := [] }.note (.unresolvedType s))
  /-- Only the second name stands for nothing. -/
  | unresolvedSup {subDef : TypeDef} (hs : w.resolve s = some subDef) (ht : w.resolve t = none) :
      Verdict w s t c (false, { c with explored := [] }.note (.unresolvedType t))
  /-- The kinds of the two definitions are never related. -/
  | unrelated {subDef supDef : TypeDef} (hs : w.resolve s = some subDef)
      (ht : w.resolve t = some supDef)
      (hkind : subDef.kind = .enumKind ∨ supDef.kind = .enumKind ∨
        subDef.kind = .interfaceKind ∧ supDef.kind = .classKind) :
      Verdict w s t c
        (false, { c with explored := [] }.note (.kindMismatch s subDef.kind t supDef.kind))
  /-- Two classes: the lineage decides. The classes passed stay in the
  checker. -/
  | classes {k l : ClassDef} {chain : List String} (hs : w.resolve s = some (.class k))
      (ht : w.resolve t = some (.class l)) :
      Verdict w s t c
        (settle (.notASubclass s t) (lineageExtends w t k { c with explored := [], chain }))
  /-- Two interfaces: a search from the first name. -/
  | interfaces {i j : InterfaceDef} {found : Bool} {c₁ : Checker}
      (hs : w.resolve s = some (.interface i)) (ht : w.resolve t = some (.interface j))
      (search : Search w t [s] { c with explored := [] } found c₁) :
      Verdict w s t c (settle (.interfaceNotExtended s t) (found, c₁))
  /-- A class and an interface: a search from what the classes of the
  lineage list. How the lineage ended is added if it was in vain, and the
  classes passed stay in the checker. -/
  | implementation {k : ClassDef} {j : InterfaceDef} {found : Bool} {c₁ : Checker}
      {chain : List String} (hs : w.resolve s = some (.class k))
      (ht : w.resolve t = some (.interface j))
      (search : Search w t ((k :: (w.lineage k).bases).flatMap (·.interfaces))
        { c with explored := [] } found c₁) :
      Verdict w s t c (settle (.interfaceNotImplemented s t)
        (found, { if found then c₁ else c₁.noteEnding (w.lineage k).ending with chain }))

/-- A class and an interface are compared by a search from the lists of
the lineage. -/
theorem search_of_classImplements {k : ClassDef} {c c' : Checker} {found : Bool}
    (hdepth : c.guard.depth ≤ c.guard.limits.maxDepth)
    (h : classImplements w target k c = .ok (found, c')) :
    ∃ c₁ chain, Search w target ((k :: (w.lineage k).bases).flatMap (·.interfaces)) c found c₁ ∧
      c' = { if found then c₁ else c₁.noteEnding (w.lineage k).ending with chain } := by
  obtain ⟨found₁, c₁, chain, hlists, hrun⟩ := exists_classImplements_eq w target k c
  cases h.symm.trans hrun
  exact ⟨c₁, chain, search_of_anyLists hdepth hlists, rfl⟩

/-- Every comparison of two different names is one of these. -/
theorem verdict_of_checkNamed {s t : String} {c : Checker} {answer : Bool × Checker}
    (hdepth : c.guard.depth ≤ c.guard.limits.maxDepth) (hne : s ≠ t)
    (h : checkNamed w s t c = .ok answer) : Verdict w s t c answer := by
  unfold checkNamed at h
  dsimp only at h
  split at h
  · next hs =>
    cases h
    exact .unresolvedSub hs
  · next subDef hs =>
    split at h
    · next ht =>
      cases h
      exact .unresolvedSup hs ht
    · next supDef ht =>
      split at h
      · next k l =>
        obtain ⟨chain, hrun⟩ := exists_classExtends_eq w t k { c with explored := [] }
        rw [hrun] at h
        cases h
        exact .classes hs ht
      · obtain ⟨found, c₁, hrun, rfl⟩ := eq_settle_of_map h
        exact .interfaces hs ht
          (search_of_interfaceExtends hdepth hne List.not_mem_nil hs hrun)
      · obtain ⟨found, c₁, hrun, rfl⟩ := eq_settle_of_map h
        obtain ⟨c₂, chain, search, rfl⟩ :=
          search_of_classImplements (c := { c with explored := [] }) hdepth hrun
        exact .implementation hs ht search
      · next hcc hii hci =>
        cases h
        refine .unrelated hs ht ?_
        cases subDef <;> cases supDef <;> simp_all [TypeDef.kind]

/-- The comparison of two different names: what decides the answer, and
the guard afterwards. -/
inductive Comparison (w : World) (s t : String) (c : Checker) : Bool → Guard → Prop where
  /-- One of the names stands for nothing. -/
  | unresolved (h : w.resolve s = none ∨ w.resolve t = none) : Comparison w s t c false c.guard
  /-- The kinds of the two definitions are never related. -/
  | unrelated {subDef supDef : TypeDef} (hs : w.resolve s = some subDef)
      (ht : w.resolve t = some supDef)
      (hkind : subDef.kind = .enumKind ∨ supDef.kind = .enumKind ∨
        subDef.kind = .interfaceKind ∧ supDef.kind = .classKind) :
      Comparison w s t c false c.guard
  /-- Two classes: the lineage decides, and the guard is not asked. -/
  | classes {k l : ClassDef} (hs : w.resolve s = some (.class k))
      (ht : w.resolve t = some (.class l)) :
      Comparison w s t c ((k :: (w.lineage k).bases).any (·.base = some t)) c.guard
  /-- Two interfaces: a search from the first name. -/
  | interfaces {i j : InterfaceDef} {found : Bool} {c' : Checker}
      (hs : w.resolve s = some (.interface i)) (ht : w.resolve t = some (.interface j))
      (search : Search w t [s] { c with explored := [] } found c') :
      Comparison w s t c found c'.guard
  /-- A class and an interface: a search from what the classes of the
  lineage list. -/
  | implementation {k : ClassDef} {j : InterfaceDef} {found : Bool} {c' : Checker}
      (hs : w.resolve s = some (.class k)) (ht : w.resolve t = some (.interface j))
      (search : Search w t ((k :: (w.lineage k).bases).flatMap (·.interfaces))
        { c with explored := [] } found c') :
      Comparison w s t c found c'.guard

/-- How a chain of base classes ended leaves the guard alone. -/
theorem guard_noteEnding (c : Checker) (e : ChainEnd) : (c.noteEnding e).guard = c.guard := by
  cases e <;> rfl

/-- Reasons are no part of what decides. -/
theorem Verdict.comparison {s t : String} {c : Checker} {answer : Bool × Checker}
    (h : Verdict w s t c answer) : Comparison w s t c answer.1 answer.2.guard := by
  cases h with
  | unresolvedSub hs => exact .unresolved (.inl hs)
  | unresolvedSup _ ht => exact .unresolved (.inr ht)
  | unrelated hs ht hkind => exact .unrelated hs ht hkind
  | @classes k l chain hs ht =>
    have decided := Comparison.classes (c := c) hs ht
    unfold lineageExtends
    split
    · next hany => rwa [hany] at decided
    · next hany =>
      rw [Bool.eq_false_iff.2 hany] at decided
      simpa only [settle, note, guard_noteEnding] using decided
  | @interfaces _ _ found c₁ hs ht search =>
    have decided := Comparison.interfaces hs ht search
    cases found <;> exact decided
  | @implementation k _ found c₁ chain hs ht search =>
    have decided := Comparison.implementation hs ht search
    cases found with
    | true => exact decided
    | false =>
      rw [← guard_noteEnding c₁ (w.lineage k).ending] at decided
      exact decided

/-- Every comparison of two different names is one of these. -/
theorem comparison_of_checkNamed {s t : String} {c c' : Checker} {found : Bool}
    (hdepth : c.guard.depth ≤ c.guard.limits.maxDepth) (hne : s ≠ t)
    (h : checkNamed w s t c = .ok (found, c')) : Comparison w s t c found c'.guard :=
  (verdict_of_checkNamed hdepth hne h).comparison

/-- The comparison of two references: what decides the answer, and the
guard afterwards. -/
inductive Descent (w : World) : TypeRef → TypeRef → Checker → Bool → Guard → Prop where
  /-- Equal references pass at once. -/
  | equal {t : TypeRef} {c : Checker} : Descent w t t c true c.guard
  /-- Two arrays, and no further level is granted. -/
  | tooDeep {a b : TypeRef} {c : Checker} (hne : a ≠ b)
      (hdeep : c.nesting.maxDepth ≤ c.nesting.depth) :
      Descent w (.array a) (.array b) c false c.guard
  /-- Two arrays: their elements decide, one level further down. -/
  | array {a b : TypeRef} {c : Checker} {nesting : Counter} {found : Bool} {g : Guard} (hne : a ≠ b)
      (henter : c.nesting.enter = (true, nesting))
      (elements : Descent w a b { c with nesting } found g) :
      Descent w (.array a) (.array b) c found g
  /-- Two names are compared by what they stand for. -/
  | named {s t : String} {c : Checker} {found : Bool} {g : Guard} (hne : s ≠ t)
      (names : Comparison w s t c found g) : Descent w (.named s) (.named t) c found g
  /-- Any other two references are refused. -/
  | shapes {sub sup : TypeRef} {c : Checker} (hne : sub ≠ sup)
      (harrays : ∀ a b, sub = .array a → sup ≠ .array b)
      (hnames : ∀ s t, sub = .named s → sup ≠ .named t) : Descent w sub sup c false c.guard

/-- What is inside two arrays decides about them. -/
theorem element_of_array {a b : TypeRef} {c c' : Checker} {nesting : Counter} {found : Bool}
    (henter : c.nesting.enter = (true, nesting))
    (h : (do
      let (allowed, c) ← checkRef w a b { c with nesting }
      let nesting ← c.nesting.leave
      return settle (.arrayElementMismatch a b) (allowed, { c with nesting })) = .ok (found, c')) :
    ∃ c₁, checkRef w a b { c with nesting } = .ok (found, c₁) ∧ c'.guard = c₁.guard := by
  obtain ⟨hlevel, -, -⟩ := Counter.enter_granted henter
  obtain ⟨allowed, c₁, hrun, same⟩ := returns_checkRef w a b { c with nesting }
  have hleave := Counter.leave_succ (same.nesting.trans hlevel)
  simp only [hrun, bind, Except.bind, hleave, pure, Except.pure] at h
  cases allowed <;> cases h <;> exact ⟨c₁, hrun, rfl⟩

/-- Every comparison of two references is one of these. -/
theorem descent_of_checkRef (sub sup : TypeRef) (c : Checker) :
    ∀ (found : Bool) (c' : Checker), c.guard.depth ≤ c.guard.limits.maxDepth →
      checkRef w sub sup c = .ok (found, c') → Descent w sub sup c found c'.guard := by
  fun_induction checkRef w sub sup c with
  | case1 sub c =>
    intro found c' _ h
    cases h
    exact .equal
  | case2 c a b nesting hrefused hne =>
    intro found c' _ h
    cases h
    exact .tooDeep (fun heq => hne (heq ▸ rfl)) (Counter.enter_refused hrefused).2.2
  | case3 c a b nesting henter hne ih =>
    intro found c' hdepth h
    obtain ⟨c₁, hrun, hguard⟩ := element_of_array henter h
    rw [hguard]
    exact .array (fun heq => hne (heq ▸ rfl)) henter (ih found c₁ hdepth hrun)
  | case4 c a b hne =>
    intro found c' hdepth h
    have hab : a ≠ b := fun heq => hne (heq ▸ rfl)
    exact .named hab (comparison_of_checkNamed hdepth hab h)
  | case5 c sub sup harrays hnames hne =>
    intro found c' _ h
    cases h
    exact .shapes hne (fun a b ha hb => harrays a b ha hb) (fun s t hs ht => hnames s t hs ht)

end Checker

end OverrideCheck
