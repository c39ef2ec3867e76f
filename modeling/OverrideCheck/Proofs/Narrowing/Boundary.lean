import OverrideCheck.Proofs.InterfaceChain
import OverrideCheck.Proofs.Narrowing.Completeness

/-!
# `OverrideCheck.Proofs.Narrowing.Boundary`: how far a search looks

The guard grants a search so many interfaces one below the other, and
refuses the next one. This module says what that means for the answer,
in a world where interfaces form no cycle and definitions are found
under their own names: a target is found exactly if a chain leads to it
that is short enough (`Search.found_iff`). It does not matter which
branch comes first. A branch that goes too deep is cut, and then the
search goes on with the next one.

What could spoil this is the memory of explored interfaces. An
interface may be met first at the end of a long path, where its own
branches are cut, and later on a short path, where they would not be.
It must not be remembered from the first time. It is not, because
nothing is written down once a limit was hit in the query. So what is
written down was searched without a cut, and then no chain of any
length leads from it to the target (`Barren`). The two halves of a
failed search follow from each other: within the levels that are left
nothing was overlooked, and without a cut nothing at all
(`Search.deadEnds`).

The attempts have to suffice for all this. They do if names can be
given weights such that an interface weighs more than all that it lists
(`Search.attempts_le`), as in the `Ladder` at the end, which is one rung
higher than a search can see.
-/

set_option autoImplicit false

namespace OverrideCheck

open Relation (ReflTransGen TransGen)

namespace Checker

variable {w : World} {target : String}

/-- The limits are the same after a search. -/
theorem Search.limits_eq {names : List String} {c c' : Checker} {found : Bool}
    (h : Search w target names c found c') : c'.guard.limits = c.guard.limits := by
  induction h with
  | exhausted | hit => rfl
  | known _ _ _ ih | unresolved _ _ _ _ ih | other _ _ _ _ _ ih => exact ih
  | cycle _ _ _ henter _ ih | cut _ _ _ henter _ _ ih =>
    exact ih.trans (Guard.limits_enter henter)
  | above _ _ _ henter _ ih => exact ih.trans (Guard.limits_enter henter)
  | failed _ _ _ henter _ _ ihInner ih =>
    exact ih.trans (ihInner.trans (Guard.limits_enter henter))

/-- Back from above an interface, as many levels are left as before. -/
theorem Search.levelsLeft_retreat {names : List String} {c c₁ : Checker} {guard : Guard}
    {fqn : String} {found : Bool} {e : Entry} (henter : c.guard.enter fqn = (e, guard))
    (inner : Search w target names { c with guard } found c₁) :
    (c₁.retreat c.guard fqn found).guard.levelsLeft = c.guard.levelsLeft := by
  show c₁.guard.limits.maxDepth - c.guard.depth = c.guard.limits.maxDepth - c.guard.depth
  rw [inner.limits_eq, ← Guard.limits_enter henter]

/-- Attempts are never taken back. -/
theorem Search.attempts_mono {names : List String} {c c' : Checker} {found : Bool} {n : Nat}
    (hn : n < Guard.attemptCeiling) (h : Search w target names c found c')
    (hc' : c'.guard.attempts ≤ n) : c.guard.attempts ≤ n := by
  have before {g guard : Guard} {fqn : String} {e : Entry} (henter : g.enter fqn = (e, guard))
      (hguard : guard.attempts ≤ n) : g.attempts ≤ n := by
    rw [Guard.attempts_enter henter] at hguard
    omega
  induction h with
  | exhausted | hit => exact hc'
  | known _ _ _ ih | unresolved _ _ _ _ ih | other _ _ _ _ _ ih => exact ih hc'
  | cycle _ _ _ henter _ ih | cut _ _ _ henter _ _ ih => exact before henter (ih hc')
  | above _ _ _ henter _ ih => exact before henter (ih hc')
  | failed _ _ _ henter _ _ ihInner ih => exact before henter (ihInner (ih hc'))

/-- A search that succeeds has found the target in its list, or at the
end of a chain for which there were levels enough. -/
theorem Search.listedWithin {names : List String} {c c' : Checker} {found : Bool}
    (h : Search w target names c found c') (hfound : found = true) :
    ∃ x ∈ names, x = target ∨ w.ListedWithin c.guard.levelsLeft x target := by
  -- What is found in the rest of the list is found in the list.
  have later {name : String} {names : List String} {n : Nat}
      (ih : ∃ x ∈ names, x = target ∨ w.ListedWithin n x target) :
      ∃ x ∈ name :: names, x = target ∨ w.ListedWithin n x target := by
    obtain ⟨x, hx, hlisted⟩ := ih
    exact ⟨x, List.mem_cons_of_mem _ hx, hlisted⟩
  induction h with
  | exhausted => cases hfound
  | hit => exact ⟨target, List.mem_cons_self, .inl rfl⟩
  | known _ _ _ ih | unresolved _ _ _ _ ih | other _ _ _ _ _ ih => exact later (ih hfound)
  | cycle _ _ _ henter _ ih =>
    rw [← Guard.levelsLeft_denied henter nofun]
    exact later (ih hfound)
  | cut _ _ _ henter he _ ih =>
    rw [← Guard.levelsLeft_denied henter (by rintro rfl; cases he)]
    exact later (ih hfound)
  | @above name _ _ _ i _ _ _ hsome henter _ ih =>
    obtain ⟨y, hy, hlisted⟩ := ih hfound
    refine ⟨name, List.mem_cons_self, .inr ?_⟩
    rw [Guard.levelsLeft_entered henter, World.listedWithin_succ]
    exact ⟨y, ⟨i, hsome, hy⟩, hlisted⟩
  | failed _ _ _ henter inner _ _ ih =>
    rw [← inner.levelsLeft_retreat henter]
    exact later (ih hfound)

/-- No explored interface leads to the target, by a chain of any
length. -/
def Barren (w : World) (target : String) (c : Checker) : Prop :=
  ∀ x ∈ c.explored, ¬ ReflTransGen w.InterfaceEdge x target

/-- What a search in vain shows about the names of its list: none is the
target, no chain leads from them to the target for which there are
levels enough, and no chain at all unless a limit was hit. -/
structure DeadEnds (w : World) (target : String) (names : List String) (c c' : Checker) :
    Prop where
  explored : Barren w target c'
  within : ∀ x ∈ names, x ≠ target ∧ ¬ w.ListedWithin c.guard.levelsLeft x target
  beyond : c'.guard.exceeded = false → ∀ x ∈ names, ¬ ReflTransGen w.InterfaceEdge x target

/-- A first name that leads nowhere, and a search in vain through the
rest. -/
theorem DeadEnds.cons {name : String} {names : List String} {c c₁ c' : Checker}
    (rest : DeadEnds w target names c₁ c') (hlevels : c₁.guard.levelsLeft = c.guard.levelsLeft)
    (hne : name ≠ target) (hwithin : ¬ w.ListedWithin c.guard.levelsLeft name target)
    (hbeyond : c'.guard.exceeded = false → ¬ ReflTransGen w.InterfaceEdge name target) :
    DeadEnds w target (name :: names) c c' where
  explored := rest.explored
  within := by
    refine List.forall_mem_cons.2 ⟨⟨hne, hwithin⟩, ?_⟩
    rw [← hlevels]
    exact rest.within
  beyond hexceeded := List.forall_mem_cons.2 ⟨hbeyond hexceeded, rest.beyond hexceeded⟩

/-- The same, for a name from which the target is out of reach. -/
theorem DeadEnds.cons_of_not_reachable {name : String} {names : List String} {c c₁ c' : Checker}
    (rest : DeadEnds w target names c₁ c') (hlevels : c₁.guard.levelsLeft = c.guard.levelsLeft)
    (hne : name ≠ target) (hname : ¬ ReflTransGen w.InterfaceEdge name target) :
    DeadEnds w target (name :: names) c c' :=
  rest.cons hlevels hne (fun hlisted => hname hlisted.reachable) fun _ => hname

/-- From a name that is not the target, the target can be reached only
along what the interface of that name lists. -/
theorem not_reachable_of_interfaces {name : String} {i : InterfaceDef} (hne : name ≠ target)
    (hsome : w.resolve name = some (.interface i))
    (h : ∀ y ∈ i.interfaces, ¬ ReflTransGen w.InterfaceEdge y target) :
    ¬ ReflTransGen w.InterfaceEdge name target := by
  intro path
  obtain ⟨y, hy, path'⟩ := World.Leads.interfaces_of_singleton
    ⟨name, List.mem_singleton_self name, path⟩ hne hsome
  exact h y hy path'

/-- From a name that is not the target and stands for no interface,
nothing can be reached. -/
theorem not_reachable_of_no_interface {name : String} (hne : name ≠ target)
    (h : ¬ w.IsInterface name) : ¬ ReflTransGen w.InterfaceEdge name target := by
  intro path
  rcases path.cases_head with heq | ⟨y, ⟨i, hi, -⟩, -⟩
  · exact hne heq
  · exact h ⟨i, hi⟩

/-- An interface that was searched in vain. Its branches were searched
with one level less, so no chain leads from it for which there were
levels enough. It is written down only if no limit was hit, and then
the target is out of reach from it. -/
theorem DeadEnds.retreat {name : String} {i : InterfaceDef} {c c₁ : Checker} {guard : Guard}
    (hne : name ≠ target) (hkey : i.fqn = name) (hsome : w.resolve name = some (.interface i))
    (henter : c.guard.enter i.fqn = (.entered, guard))
    (inner : DeadEnds w target i.interfaces { c with guard } c₁) :
    Barren w target (c₁.retreat c.guard i.fqn false) ∧
    ¬ w.ListedWithin c.guard.levelsLeft name target ∧
    (c₁.guard.exceeded = false → ¬ ReflTransGen w.InterfaceEdge name target) := by
  have hbeyond (hexceeded : c₁.guard.exceeded = false) :
      ¬ ReflTransGen w.InterfaceEdge name target :=
    not_reachable_of_interfaces hne hsome (inner.beyond hexceeded)
  refine ⟨fun x hx => ?_, ?_, hbeyond⟩
  · cases hexceeded : c₁.guard.exceeded with
    | true =>
      simp only [Checker.retreat, hexceeded, Bool.or_true, if_true] at hx
      exact inner.explored x hx
    | false =>
      simp only [Checker.retreat, hexceeded, Bool.or_false, Bool.false_eq_true, if_false] at hx
      rcases List.mem_cons.1 hx with rfl | hx
      · rw [hkey]
        exact hbeyond hexceeded
      · exact inner.explored x hx
  · rw [Guard.levelsLeft_entered henter, World.listedWithin_succ]
    rintro ⟨y, ⟨j, hj, hy⟩, hlisted⟩
    rw [hsome] at hj
    cases hj
    obtain ⟨hney, hnot⟩ := inner.within y hy
    exact hlisted.elim hney hnot

/-- A search in vain overlooks nothing within the levels that are left,
as long as the attempts suffice. What it has explored stays barren. -/
theorem Search.deadEnds (hw : w.WellKeyed) (hacyclic : ∀ x, ¬ TransGen w.InterfaceEdge x x)
    {limits : Limits} (hceiling : limits.maxAttempts < Guard.attemptCeiling) {names : List String}
    {c c' : Checker} {found : Bool} (h : Search w target names c found c') (hfound : found = false)
    (hlimits : c.guard.limits = limits) (hattempts : c'.guard.attempts ≤ limits.maxAttempts)
    (hbarren : Barren w target c) (hpath : w.PathLeads c.guard.path names) :
    DeadEnds w target names c c' := by
  induction h with
  | exhausted => exact ⟨hbarren, by simp, by simp⟩
  | hit | above => cases hfound
  | known hne hknown _ ih =>
    have rest := ih hfound hlimits hattempts hbarren hpath.tail
    exact rest.cons_of_not_reachable rfl hne (hbarren _ hknown)
  | unresolved hne _ hnone _ ih =>
    have rest := ih hfound hlimits hattempts hbarren hpath.tail
    refine rest.cons_of_not_reachable rfl hne (not_reachable_of_no_interface hne ?_)
    rintro ⟨i, hi⟩
    rw [hnone] at hi
    cases hi
  | other hne _ hsome hkind _ ih =>
    have rest := ih hfound hlimits hattempts hbarren hpath.tail
    refine rest.cons_of_not_reachable rfl hne (not_reachable_of_no_interface hne ?_)
    rintro ⟨i, hi⟩
    rw [hsome] at hi
    exact hkind i (Option.some.inj hi)
  | cycle _ _ hsome henter =>
    -- The path leads to the name, so a name on the path would be on a cycle.
    exact absurd (hpath.cycle hw hsome henter) (hacyclic _)
  | @cut _ _ c _ _ _ e guard hne _ _ henter he search ih =>
    have hdenied : e ≠ .entered := by
      rintro rfl
      cases he
    have rest := ih hfound ((Guard.limits_enter henter).trans hlimits) hattempts hbarren
      (hpath.denied henter hdenied)
    have hzero : c.guard.levelsLeft = 0 := by
      refine (Guard.exhausted_of_enter henter he).resolve_left fun hused => ?_
      have hguard : guard.attempts ≤ limits.maxAttempts := search.attempts_mono hceiling hattempts
      rw [hlimits] at hused
      omega
    refine rest.cons (Guard.levelsLeft_denied henter hdenied) hne ?_ fun hexceeded => ?_
    · rw [hzero]
      exact World.not_listedWithin_zero
    · -- The cut is on record.
      have hguard : guard.exceeded = false := search.exceeded_mono hexceeded
      rw [Guard.exceeded_enter henter, he, Bool.or_true] at hguard
      cases hguard
  | @failed name _ c c₁ _ _ i guard hne _ hsome henter inner search ihInner ih =>
    have hkey : i.fqn = name := hw name (.interface i) hsome
    have hlimits' : guard.limits = limits := (Guard.limits_enter henter).trans hlimits
    have hattempts₁ : c₁.guard.attempts ≤ limits.maxAttempts :=
      search.attempts_mono (c := c₁.retreat c.guard i.fqn false) hceiling hattempts
    have inside := ihInner rfl hlimits' hattempts₁ hbarren (hpath.entered hw hsome henter)
    obtain ⟨hbarren₁, hwithin, hbeyond⟩ := inside.retreat hne hkey hsome henter
    have rest := ih hfound (inner.limits_eq.trans hlimits') hattempts hbarren₁ hpath.tail
    exact rest.cons (inner.levelsLeft_retreat henter) hne hwithin fun hexceeded =>
      hbeyond (search.exceeded_mono hexceeded)

/-- A search that starts afresh finds its target exactly if the target
is in the list, or at the end of a chain for which there are levels
enough. -/
theorem Search.found_iff (hw : w.WellKeyed) (hacyclic : ∀ x, ¬ TransGen w.InterfaceEdge x x)
    {names : List String} {c c' : Checker} {found : Bool} (h : Search w target names c found c')
    (hpath : c.guard.path = []) (hexplored : c.explored = [])
    (hceiling : c.guard.limits.maxAttempts < Guard.attemptCeiling)
    (hattempts : c'.guard.attempts ≤ c.guard.limits.maxAttempts) :
    found = true ↔ ∃ x ∈ names, x = target ∨ w.ListedWithin c.guard.levelsLeft x target := by
  refine ⟨h.listedWithin, fun ⟨x, hx, hlisted⟩ => ?_⟩
  by_contra hfound
  rw [Bool.not_eq_true] at hfound
  have hbarren : Barren w target c := by
    intro y hy
    rw [hexplored] at hy
    cases hy
  have hleads : w.PathLeads c.guard.path names := by
    rw [hpath]
    exact World.pathLeads_nil names
  have done := h.deadEnds hw hacyclic hceiling hfound rfl hattempts hbarren hleads
  obtain ⟨hne, hnot⟩ := done.within x hx
  exact hlisted.elim hne hnot

/-- A weight for each name such that an interface weighs more than what
it lists bounds the attempts of a search: the names of its list pay for
them. -/
theorem Search.attempts_le {weight : String → Nat}
    (hweight : ∀ x i, w.resolve x = some (.interface i) →
      i.interfaces.foldr (weight · + ·) 0 < weight x)
    {names : List String} {c c' : Checker} {found : Bool} (h : Search w target names c found c') :
    c'.guard.attempts ≤ c.guard.attempts + names.foldr (weight · + ·) 0 := by
  have asked {g guard : Guard} {fqn : String} {e : Entry} (henter : g.enter fqn = (e, guard)) :
      guard.attempts ≤ g.attempts + 1 := by
    rw [Guard.attempts_enter henter]
    exact Nat.min_le_left _ _
  induction h with
  | exhausted | hit => exact Nat.le_add_right _ _
  | known _ _ _ ih | unresolved _ _ _ _ ih | other _ _ _ _ _ ih =>
    exact ih.trans (Nat.add_le_add_left (Nat.le_add_left _ _) _)
  | @cycle _ _ _ c' _ _ guard _ _ hsome henter _ ih
  | @cut _ _ _ c' _ _ _ guard _ _ hsome henter _ _ ih =>
    have hrest : c'.guard.attempts ≤ guard.attempts + _ := ih
    have hpaid := hweight _ _ hsome
    have hasked := asked henter
    rw [List.foldr_cons]
    omega
  | @above _ _ _ c₁ _ guard _ _ hsome henter _ ih =>
    have hinner : c₁.guard.attempts ≤ guard.attempts + _ := ih
    have hpaid := hweight _ _ hsome
    have hasked := asked henter
    show c₁.guard.attempts ≤ _
    rw [List.foldr_cons]
    omega
  | @failed _ _ _ c₁ c' _ _ guard _ _ hsome henter _ _ ihInner ih =>
    -- The weight of the name pays for its own attempt and for the search
    -- inside, and what is left pays for the rest of the list.
    have hinner : c₁.guard.attempts ≤ guard.attempts + _ := ihInner
    have hrest : c'.guard.attempts ≤ c₁.guard.attempts + _ := ih
    have hpaid := hweight _ _ hsome
    have hasked := asked henter
    rw [List.foldr_cons]
    omega

/-- Two interfaces are compared by a search from the first name. -/
theorem Comparison.exists_search_of_interfaces {s t : String} {i j : InterfaceDef} {c : Checker}
    {found : Bool} {g : Guard} (h : Comparison w s t c found g)
    (hs : w.resolve s = some (.interface i)) (ht : w.resolve t = some (.interface j)) :
    ∃ c', Search w t [s] { c with explored := [] } found c' ∧ c'.guard = g := by
  cases h with
  | unresolved hnone => simp [hs, ht] at hnone
  | unrelated hs' ht' hkind =>
    rw [hs] at hs'
    rw [ht] at ht'
    cases hs'
    cases ht'
    simp [TypeDef.kind] at hkind
  | classes hs' | implementation hs' =>
    rw [hs] at hs'
    cases hs'
  | interfaces _ _ search => exact ⟨_, search, rfl⟩

/-- A class and an interface are compared by a search from what the
classes of the lineage list. -/
theorem Comparison.exists_search_of_implementation {s t : String} {k : ClassDef} {j : InterfaceDef}
    {c : Checker} {found : Bool} {g : Guard} (h : Comparison w s t c found g)
    (hs : w.resolve s = some (.class k)) (ht : w.resolve t = some (.interface j)) :
    ∃ c', Search w t ((k :: (w.lineage k).bases).flatMap (·.interfaces)) { c with explored := [] }
      found c' ∧ c'.guard = g := by
  cases h with
  | unresolved hnone => simp [hs, ht] at hnone
  | unrelated hs' ht' hkind =>
    rw [hs] at hs'
    rw [ht] at ht'
    cases hs'
    cases ht'
    simp [TypeDef.kind] at hkind
  | classes _ ht' =>
    rw [ht] at ht'
    cases ht'
  | interfaces hs' =>
    rw [hs] at hs'
    cases hs'
  | implementation hs' _ search =>
    rw [hs] at hs'
    cases hs'
    exact ⟨_, search, rfl⟩

end Checker

/-- The exact boundary of the search through interfaces, where these
form no cycle and definitions are found under their own names, as long
as a query makes no more than 100000 attempts. An interface may stand in
for another one exactly if a chain of at most 256 interfaces, itself the
first, ends with one that lists the other. A class may stand in for an
interface exactly if it or a class on its base chain lists the interface
or the start of such a chain. So a branch that is cut never hides what
another branch reaches. -/
theorem isAllowed_iff_listedWithin (w : World) (hw : w.WellKeyed)
    (hacyclic : ∀ x, ¬ TransGen w.InterfaceEdge x x) (s t : String) (j : InterfaceDef)
    (ht : w.resolve t = some (.interface j)) (hne : s ≠ t)
    (hattempts :
      (Checker.new.ask w (some (.named s)) (some (.named t))).2.guard.attempts ≤ 100000) :
    (∀ i, w.resolve s = some (.interface i) →
      (isAllowed w (some (.named s)) (some (.named t)) = true ↔ w.ListedWithin 256 s t)) ∧
    ∀ k, w.resolve s = some (.class k) →
      (isAllowed w (some (.named s)) (some (.named t)) = true ↔
        ∃ m, w.BaseChain k m ∧ ∃ v ∈ m.interfaces, v = t ∨ w.ListedWithin 256 v t) := by
  have names := (Checker.descent_of_ask (w := w) (c := Checker.new) rfl rfl).comparison hne
  have hceiling : Limits.inheritance.maxAttempts < Guard.attemptCeiling := by decide
  refine ⟨fun i hs => ?_, fun k hs => ?_⟩
  · obtain ⟨c', search, hguard⟩ := names.exists_search_of_interfaces hs ht
    have hfound := search.found_iff hw hacyclic rfl rfl hceiling (hguard ▸ hattempts)
    refine hfound.trans ⟨?_, fun hlisted => ⟨s, List.mem_singleton_self s, .inr hlisted⟩⟩
    rintro ⟨x, hx, hlisted⟩
    rw [List.mem_singleton.1 hx] at hlisted
    exact hlisted.resolve_left hne
  · obtain ⟨c', search, hguard⟩ := names.exists_search_of_implementation hs ht
    have hfound := search.found_iff hw hacyclic rfl rfl hceiling (hguard ▸ hattempts)
    refine hfound.trans ⟨?_, ?_⟩
    · rintro ⟨v, hv, hlisted⟩
      obtain ⟨m, hm, hv⟩ := List.mem_flatMap.1 hv
      exact ⟨m, World.baseChain_of_mem_lineage hm, v, hv, hlisted⟩
    · rintro ⟨m, chain, v, hv, hlisted⟩
      have hm := World.mem_lineage_of_wellKeyed hw (hw.resolve_fqn hs) chain
      exact ⟨v, List.mem_flatMap.2 ⟨m, hm, hv⟩, hlisted⟩

namespace Ladder

/-- The name of a rung: a stroke for each rung below it. -/
def rung (n : Nat) : String := String.ofList (List.replicate n 'i')

/-- Each rung but the lowest lists the one below it. -/
def rungDef : Nat → InterfaceDef
  | 0 => { fqn := rung 0 }
  | n + 1 => { fqn := rung (n + 1), interfaces := [rung n] }

/-- A class that lists the two highest rungs, the highest first. -/
def climber : ClassDef := { fqn := "climber", interfaces := [rung 257, rung 256] }

/-- Interfaces in a row, one more than fit on a path above the lowest,
and a class above them. -/
def world : World where
  resolve x :=
    if x = rung x.length ∧ x.length ≤ 257 then some (.interface (rungDef x.length))
    else if x = climber.fqn then some (.class climber)
    else none
  definitions := .class climber :: (List.range 258).map fun n => .interface (rungDef n)
  mem_of_resolve {x d} h := by
    split at h
    · next hx =>
      cases h
      exact List.mem_cons_of_mem _ (List.mem_map.2 ⟨x.length, by simp; omega, rfl⟩)
    · split at h
      · cases h
        exact List.mem_cons_self
      · cases h

@[simp]
theorem length_rung (n : Nat) : (rung n).length = n := by
  simp [rung]

theorem rung_inj {m n : Nat} (h : rung m = rung n) : m = n := by
  simpa using congrArg String.length h

theorem fqn_rungDef (n : Nat) : (rungDef n).fqn = rung n := by
  cases n <;> rfl

theorem resolve_rung {n : Nat} (hn : n ≤ 257) :
    world.resolve (rung n) = some (.interface (rungDef n)) := by
  simp [world, hn]

theorem resolve_climber : world.resolve climber.fqn = some (.class climber) := by
  decide +kernel

/-- Nothing else is there. -/
theorem cases_of_resolve {x : String} {d : TypeDef} (h : world.resolve x = some d) :
    (∃ n ≤ 257, x = rung n ∧ d = .interface (rungDef n)) ∨
    (x = climber.fqn ∧ d = .class climber) := by
  simp only [world] at h
  split at h
  · next hx =>
    cases h
    exact .inl ⟨x.length, hx.2, hx.1, rfl⟩
  · split at h
    · next hx =>
      cases h
      exact .inr ⟨hx, rfl⟩
    · cases h

theorem wellKeyed : world.WellKeyed := by
  intro x d h
  rcases cases_of_resolve h with ⟨n, -, rfl, rfl⟩ | ⟨rfl, rfl⟩
  · exact fqn_rungDef n
  · rfl

theorem interfaceEdge_iff {x y : String} :
    world.InterfaceEdge x y ↔ ∃ n < 257, x = rung (n + 1) ∧ y = rung n := by
  constructor
  · rintro ⟨i, hx, hy⟩
    rcases cases_of_resolve hx with ⟨n, hn, rfl, hi⟩ | ⟨-, hi⟩
    · cases hi
      cases n with
      | zero => cases hy
      | succ n => exact ⟨n, hn, rfl, List.mem_singleton.1 hy⟩
    · cases hi
  · rintro ⟨n, hn, rfl, rfl⟩
    exact ⟨_, resolve_rung hn, List.mem_singleton_self _⟩

theorem acyclic (x : String) : ¬ TransGen world.InterfaceEdge x x := by
  intro path
  have hlt : TransGen (· > ·) x.length x.length := path.lift String.length fun y z edge => by
    obtain ⟨n, -, rfl, rfl⟩ := interfaceEdge_iff.1 edge
    show (rung n).length < (rung (n + 1)).length
    rw [length_rung, length_rung]
    exact Nat.lt_succ_self n
  rw [Relation.transGen_eq_self] at hlt
  exact Nat.lt_irrefl _ hlt

/-- From a rung to the lowest there are as many interfaces as the rung
is high. -/
theorem listedWithin_iff {m n : Nat} (hn : n ≤ 257) :
    world.ListedWithin m (rung n) (rung 0) ↔ 0 < n ∧ n ≤ m := by
  induction m generalizing n with
  | zero =>
    refine ⟨fun h => absurd h World.not_listedWithin_zero, fun h => ?_⟩
    omega
  | succ m ih =>
    rw [World.listedWithin_succ]
    constructor
    · rintro ⟨y, edge, hy⟩
      obtain ⟨k, hk, hn', rfl⟩ := interfaceEdge_iff.1 edge
      have hsucc := rung_inj hn'
      rcases hy with hlowest | hlisted
      · have hzero := rung_inj hlowest
        omega
      · have hle := ((ih (by omega)).1 hlisted).2
        omega
    · rintro ⟨hpos, hle⟩
      obtain ⟨k, rfl⟩ := Nat.exists_eq_add_one.2 hpos
      refine ⟨rung k, interfaceEdge_iff.2 ⟨k, hn, rfl, rfl⟩, ?_⟩
      rcases Nat.eq_zero_or_pos k with rfl | hk
      · exact .inl rfl
      · exact .inr ((ih (by omega)).2 ⟨hk, by omega⟩)

/-- A rung weighs more than the one it lists. -/
theorem weight_lt (x : String) (i : InterfaceDef) (h : world.resolve x = some (.interface i)) :
    i.interfaces.foldr (fun y total => y.length + 1 + total) 0 < x.length + 1 := by
  rcases cases_of_resolve h with ⟨n, -, rfl, hi⟩ | ⟨-, hi⟩
  · cases hi
    cases n <;> simp [rungDef]
  · cases hi

/-- A search from some rungs takes no more attempts than there are rungs
at or below them. -/
theorem attempts_le_of_search (heights : List Nat) {target : String} {c c' : Checker} {found : Bool}
    (h : Checker.Search world target (heights.map rung) c found c') :
    c'.guard.attempts ≤ c.guard.attempts + heights.foldr (fun n total => n + 1 + total) 0 := by
  have hle := h.attempts_le weight_lt
  rw [List.foldr_map] at hle
  simpa only [length_rung] using hle

theorem attempts_rung {n : Nat} (hpos : 0 < n) (hn : n ≤ 257) :
    (Checker.new.ask world (some (.named (rung n))) (some (.named (rung 0)))).2.guard.attempts
      ≤ 100000 := by
  have hne : rung n ≠ rung 0 := fun h => Nat.ne_of_gt hpos (rung_inj h)
  have names := (Checker.descent_of_ask (w := world) (c := Checker.new) rfl rfl).comparison hne
  obtain ⟨c', search, hguard⟩ := names.exists_search_of_interfaces (resolve_rung hn)
    (resolve_rung (Nat.zero_le _))
  have hle : c'.guard.attempts ≤ 0 + (n + 1 + 0) := attempts_le_of_search [n] search
  rw [← hguard]
  omega

theorem attempts_climber :
    (Checker.new.ask world (some (.named climber.fqn)) (some (.named (rung 0)))).2.guard.attempts
      ≤ 100000 := by
  have hne : climber.fqn ≠ rung 0 := by decide +kernel
  have hlists : (climber :: (world.lineage climber).bases).flatMap (·.interfaces) =
      [257, 256].map rung := by
    rw [World.lineage, World.climb]
    rfl
  have names := (Checker.descent_of_ask (w := world) (c := Checker.new) rfl rfl).comparison hne
  obtain ⟨c', search, hguard⟩ := names.exists_search_of_implementation resolve_climber
    (resolve_rung (Nat.zero_le _))
  rw [hlists] at search
  have hle : c'.guard.attempts ≤ 0 + (257 + 1 + (256 + 1 + 0)) :=
    attempts_le_of_search [257, 256] search
  rw [← hguard]
  omega

/-- From the 256th rung the lowest is found, and from the next one it is
not. The class lists both. The search above the higher one is cut, and
that does not hide the lower one. -/
theorem isAllowed_ladder :
    isAllowed world (some (.named (rung 256))) (some (.named (rung 0))) = true ∧
    isAllowed world (some (.named (rung 257))) (some (.named (rung 0))) = false ∧
    isAllowed world (some (.named climber.fqn)) (some (.named (rung 0))) = true := by
  have lowest : world.resolve (rung 0) = some (.interface (rungDef 0)) :=
    resolve_rung (Nat.zero_le _)
  have boundary {n : Nat} (hpos : 0 < n) (hn : n ≤ 257) :
      isAllowed world (some (.named (rung n))) (some (.named (rung 0))) = true ↔ 0 < n ∧ n ≤ 256 :=
    ((isAllowed_iff_listedWithin world wellKeyed acyclic (rung n) (rung 0) _ lowest
      (fun h => Nat.ne_of_gt hpos (rung_inj h)) (attempts_rung hpos hn)).1 _
      (resolve_rung hn)).trans (listedWithin_iff hn)
  refine ⟨(boundary (by decide) (by decide)).2 (by decide), ?_, ?_⟩
  · rw [← Bool.not_eq_true, boundary (by decide) (by decide)]
    decide
  · refine ((isAllowed_iff_listedWithin world wellKeyed acyclic climber.fqn (rung 0) _ lowest
      (by decide +kernel) attempts_climber).2 climber resolve_climber).2 ?_
    exact ⟨climber, .refl, rung 256, by simp [climber],
      .inr ((listedWithin_iff (by decide)).2 (by decide))⟩

end Ladder

end OverrideCheck
