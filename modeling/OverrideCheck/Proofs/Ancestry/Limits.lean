import OverrideCheck.Proofs.Ancestry.Questions
import OverrideCheck.Proofs.InterfaceChain

/-!
# `OverrideCheck.Proofs.Ancestry.Limits`: when a limit cuts the ancestor walk

The walk that collects the ancestors of a definition asks the guard for
each interface that it meets, and the guard has two limits. This module
shows that neither is reached without need, in a world where
definitions are found under their own names. Cycles are allowed.

* Each interface that is written down was one attempt
  (`Exploration.counted`). One is written down for each name that is
  met, so no name is asked for twice, also when limits are hit
  (`Ran.names`).
* The path of the guard is a chain of interfaces above the definition
  (`World.TrailAbove`), and no name is on it twice. A refusal for depth
  shows such a chain that is one longer than the guard grants. A
  refusal for attempts shows that many interfaces, since each attempt
  was for another one (`Exploration.limits_cases`).
* A walk that writes no limit down has stayed within both limits
  (`Exploration.granted`).

Base classes are on no path and are no attempts, so a chain of them may
be as long as it likes.
-/

set_option autoImplicit false

namespace OverrideCheck

/-- The name is listed by the definition, or by a class on its base
chain. -/
def World.ListedBy (w : World) : TypeDef → String → Prop
  | .class c, name => ∃ m, w.BaseChain c m ∧ name ∈ m.interfaces
  | .interface i, name => name ∈ i.interfaces
  | .enum _, _ => False

/-- A chain of interfaces, each of which lists the next. The first one
is listed by the definition, or by a class on its base chain. -/
structure World.TrailAbove (w : World) (d : TypeDef) (trail : List String) : Prop where
  listed : ∀ x ∈ trail.head?, w.ListedBy d x
  chain : trail.IsChain w.InterfaceEdge
  interfaces : ∀ x ∈ trail, w.IsInterface x

/-- A chain of interfaces above the definition is longer than the guard
grants. It counts the definition itself, if that is an interface. -/
def World.TooDeep (w : World) (d : TypeDef) : Prop :=
  ∃ trail, w.TrailAbove d trail ∧ (d.ownNames ++ trail).Nodup ∧ (d.ownNames ++ trail).length = 257

/-- More interfaces can be reached from the definition than the guard
grants attempts, which also counts the definition itself if that is an
interface. -/
def World.TooMany (w : World) (d : TypeDef) : Prop :=
  ∃ names, (d.ownNames ++ names).Nodup ∧ (∀ x ∈ names, w.IsInterface x ∧ w.ListedAbove d x) ∧
    100000 < (d.ownNames ++ names).length

/-- The interface is above the definition, with no more than 256
interfaces on the way to it and itself. That counts the definition, if
it is an interface. -/
def World.WithinDepth (w : World) (d : TypeDef) (x : String) : Prop :=
  ∃ trail, w.TrailAbove d (trail ++ [x]) ∧ (d.ownNames ++ (trail ++ [x])).length ≤ 256

namespace Ancestors

/-! ### What the guard counts -/

namespace Walk

variable {w : World} {n : Nat}

/-- Each interface that was written down was one attempt, and there were
`n` before them. The guard stops counting at its ceiling. -/
def Counted (n : Nat) (s : Walk) : Prop :=
  s.guard.attempts = min (n + s.found.interfaces.length) Guard.attemptCeiling

/-- Writing an interface down and asking for it go together. -/
theorem Counted.visit {s : Walk} (h : s.Counted n) {name : String} {i : InterfaceDef} {e : Entry}
    {guard : Guard} (henter : s.guard.enter i.fqn = (e, guard)) :
    (s.visit name i guard).Counted n := by
  show guard.attempts = min (n + (s.found.interfaces ++ [i]).length) Guard.attemptCeiling
  have hbefore : s.guard.attempts = min (n + s.found.interfaces.length) Guard.attemptCeiling := h
  rw [Guard.attempts_enter henter, List.length_append, List.length_singleton]
  omega

theorem Exploration.counted {names : List String} {s s' : Walk} (h : Exploration w names s s')
    (hs : s.Counted n) : s'.Counted n := by
  induction h with
  | done => exact hs
  | returned _ _ ih | met _ _ _ ih | unresolved _ _ _ _ ih | other _ _ _ _ _ ih => exact ih hs
  | cycle _ _ _ henter _ ih | cut _ _ _ henter _ _ ih => exact ih (hs.visit henter)
  | entered _ _ _ henter _ _ ihInner ihRest => exact ihRest (ihInner (hs.visit henter))

theorem Exploration.limits_eq {names : List String} {s s' : Walk} (h : Exploration w names s s') :
    s'.guard.limits = s.guard.limits := by
  induction h with
  | done => rfl
  | returned _ _ ih | met _ _ _ ih | unresolved _ _ _ _ ih | other _ _ _ _ _ ih => exact ih
  | cycle _ _ _ henter _ ih | cut _ _ _ henter _ _ ih => exact ih.trans (Guard.limits_enter henter)
  | entered _ _ _ henter _ _ ihInner ihRest =>
    exact ihRest.trans (ihInner.trans (Guard.limits_enter henter))

/-- What was written down stays. -/
theorem Exploration.length_interfaces_le {names : List String} {s s' : Walk}
    (h : Exploration w names s s') :
    s.found.interfaces.length ≤ s'.found.interfaces.length := by
  obtain ⟨new, hnew⟩ := h.enumerates
  obtain ⟨found, hfound, -⟩ := hnew.entries
  rw [hfound, List.length_append]
  omega

end Walk

/-! ### Where the guard stands -/

variable {w : World} {d : TypeDef}

theorem listedBy_of_mem_sources {x : String} (hx : x ∈ sources w d) : w.ListedBy d x := by
  rcases List.mem_append.1 hx with hx | hx
  · cases d with
    | «class» c => exact ⟨c, .refl, hx⟩
    | interface i => exact hx
    | enum e => cases hx
  · obtain ⟨b, hb, hxb⟩ := List.mem_flatMap.1 hx
    obtain ⟨c, rfl⟩ := exists_class_of_mem_bases hb
    rw [bases_collect] at hb
    exact ⟨b, (World.transGen_of_mem_lineage hb).to_reflTransGen, hxb⟩

/-- A trail goes on with what its last interface lists. -/
theorem trailAbove_concat {trail : List String} {x y : String}
    (h : w.TrailAbove d (trail ++ [x])) (edge : w.InterfaceEdge x y) (hy : w.IsInterface y) :
    w.TrailAbove d (trail ++ [x] ++ [y]) where
  listed z hz := by
    have hhead : (trail ++ [x] ++ [y]).head? = (trail ++ [x]).head? := by cases trail <;> rfl
    rw [hhead] at hz
    exact h.listed z hz
  chain := by
    refine List.isChain_append.2 ⟨h.chain, List.isChain_singleton y, ?_⟩
    intro a ha b hb
    rw [List.getLast?_concat] at ha
    cases ha
    cases hb
    exact edge
  interfaces z hz := by
    rcases List.mem_append.1 hz with hz | hz
    · exact h.interfaces z hz
    · rw [List.mem_singleton.1 hz]
      exact hy

namespace Walk

/-- The walk stands at the end of a trail that no name is on twice, with
these names to meet next. The guard's path is the trail, the deepest
name first. -/
structure AtEndOf (w : World) (d : TypeDef) (trail names : List String) (s : Walk) : Prop where
  limits : s.guard.limits = .inheritance
  path : s.guard.path = (d.ownNames ++ trail).reverse
  depth : s.guard.depth = s.guard.path.length
  within : s.guard.depth ≤ Limits.inheritance.maxDepth
  nodup : (d.ownNames ++ trail).Nodup
  goesOn : ∀ x ∈ names, w.IsInterface x → w.TrailAbove d (trail ++ [x])

namespace AtEndOf

variable {trail names : List String} {name : String} {s s' : Walk} {i : InterfaceDef}

/-- The names on the path are those that the guard has counted. -/
theorem length_eq (h : AtEndOf w d trail names s) :
    (d.ownNames ++ trail).length = s.guard.depth := by
  rw [h.depth, h.path, List.length_reverse]

/-- The next name, from the same place. -/
theorem next (h : AtEndOf w d trail (name :: names) s) (hlimits : s'.guard.limits = s.guard.limits)
    (hpath : s'.guard.path = s.guard.path) (hdepth : s'.guard.depth = s.guard.depth) :
    AtEndOf w d trail names s' where
  limits := hlimits.trans h.limits
  path := hpath.trans h.path
  depth := by rw [hdepth, hpath, h.depth]
  within := by
    rw [hdepth]
    exact h.within
  nodup := h.nodup
  goesOn x hx := h.goesOn x (List.mem_cons_of_mem name hx)

/-- The next name, after the guard has refused the first one. -/
theorem denied (h : AtEndOf w d trail (name :: names) s) {e : Entry} {guard : Guard}
    (henter : s.guard.enter i.fqn = (e, guard)) (he : e ≠ .entered) (hs' : s'.guard = guard) :
    AtEndOf w d trail names s' := by
  obtain ⟨hpath, hdepth, hlimits⟩ := Guard.enter_denied henter he
  subst hs'
  exact h.next hlimits hpath hdepth

/-- A name that is not on the path makes the trail longer by one. -/
theorem nodup_concat (h : AtEndOf w d trail (name :: names) s) (hoff : name ∉ s.guard.path) :
    (d.ownNames ++ (trail ++ [name])).Nodup := by
  rw [← List.append_assoc]
  refine List.nodup_append.2 ⟨h.nodup, List.nodup_singleton name, ?_⟩
  intro x hx y hy hxy
  rw [List.mem_singleton.1 hy] at hxy
  rw [h.path, List.mem_reverse] at hoff
  exact hoff (hxy ▸ hx)

/-- Inside an interface the walk stands one further. -/
theorem entered (hw : w.WellKeyed) (h : AtEndOf w d trail (name :: names) s)
    (hoff : name ∉ s.guard.path) (hsome : w.resolve name = some (.interface i)) {guard : Guard}
    (henter : s.guard.enter i.fqn = (.entered, guard)) :
    AtEndOf w d (trail ++ [name]) i.interfaces (s.visit name i guard) := by
  have hkey : i.fqn = name := hw name (.interface i) hsome
  obtain ⟨-, hpath, hdepth, hlimits, hlt⟩ := Guard.enter_entered henter
  rw [hkey] at hpath
  exact {
    limits := hlimits.trans h.limits
    path := by
      show guard.path = _
      rw [hpath, h.path, ← List.append_assoc, List.reverse_concat]
    depth := by
      show guard.depth = guard.path.length
      rw [hdepth, hpath, List.length_cons, h.depth]
    within := by
      show guard.depth ≤ _
      rw [h.limits] at hlt
      omega
    nodup := h.nodup_concat hoff
    goesOn := fun x hx hinterface => trailAbove_concat
      (h.goesOn name List.mem_cons_self ⟨i, hsome⟩) ⟨i, hsome, hx⟩ hinterface }

/-- Where no level is left, the trail with the name is one longer than
the guard grants. -/
theorem tooDeep (h : AtEndOf w d trail (name :: names) s) (hoff : name ∉ s.guard.path)
    (hsome : w.resolve name = some (.interface i)) (hnone : s.guard.levelsLeft = 0) :
    w.TooDeep d := by
  refine ⟨trail ++ [name], h.goesOn name List.mem_cons_self ⟨i, hsome⟩, h.nodup_concat hoff, ?_⟩
  have hwithin : s.guard.depth ≤ 256 := h.within
  have hleft : 256 - s.guard.depth = 0 := by
    rw [Guard.levelsLeft, h.limits] at hnone
    exact hnone
  rw [← List.append_assoc, List.length_append, h.length_eq, List.length_singleton]
  omega

end AtEndOf

/-- A walk writes a limit down only if there is a trail longer than the
guard grants, or if more interfaces were written down than it grants
attempts. -/
theorem Exploration.limits_cases (hw : w.WellKeyed) {n : Nat} {names : List String} {s s' : Walk}
    (h : Exploration w names s s') {trail : List String} (hs : AtEndOf w d trail names s)
    (hcount : s.Counted n) :
    s'.found.limitExceeded = s.found.limitExceeded ∨ w.TooDeep d ∨
      100000 < n + s'.found.interfaces.length := by
  induction h generalizing trail with
  | done => exact .inl rfl
  | returned _ _ ih | met _ _ _ ih | unresolved _ _ _ _ ih | other _ _ _ _ _ ih =>
    exact ih (hs.next rfl rfl rfl) hcount
  | cycle _ _ _ henter _ ih =>
    exact ih (hs.denied henter nofun rfl) (hcount.visit henter)
  | @cut name names s s' i e guard hoff hnew hsome henter he rest ih =>
    -- The one rule that writes a limit down.
    rcases Guard.exhausted_of_enter henter he with hused | hnone
    · have hvisit : (s.visit name i guard).Counted n := hcount.visit henter
      have hattempts : guard.attempts = min (n + (s.found.interfaces ++ [i]).length) _ := hvisit
      have hgrown : (s.found.interfaces ++ [i]).length ≤ s'.found.interfaces.length :=
        rest.length_interfaces_le
      rw [hs.limits] at hused
      have hused : 100000 < guard.attempts := hused
      right; right
      omega
    · exact .inr (.inl (hs.tooDeep hoff hsome hnone))
  | @entered name names s s₁ s' i guard hoff hnew hsome henter inner rest ihInner ihRest =>
    have hinner := ihInner (hs.entered hw hoff hsome henter) (hcount.visit henter)
    have hlimits : s₁.guard.limits = s.guard.limits :=
      inner.limits_eq.trans (Guard.limits_enter henter)
    have hrest := ihRest (hs.next hlimits rfl rfl) (inner.counted (hcount.visit henter))
    have hgrown : s₁.found.interfaces.length ≤ s'.found.interfaces.length :=
      rest.length_interfaces_le
    rcases hinner with hinner | hdeep | hmany
    · rcases hrest with hrest | hother
      · exact .inl (hrest.trans hinner)
      · exact .inr hother
    · exact .inr (.inl hdeep)
    · right; right
      omega

/-- A walk that writes no limit down has stayed within both limits. -/
theorem Exploration.granted (hw : w.WellKeyed) {names : List String} {s s' : Walk}
    (h : Exploration w names s s') {trail : List String} (hs : AtEndOf w d trail names s)
    (hlimit : s'.found.limitExceeded = []) :
    (∀ i ∈ s'.found.interfaces, i ∈ s.found.interfaces ∨ w.WithinDepth d i.fqn) ∧
      (s.guard.attempts ≤ 100000 → s'.guard.attempts ≤ 100000) := by
  induction h generalizing trail with
  | done => exact ⟨fun i hi => .inl hi, id⟩
  | returned _ _ ih | met _ _ _ ih | unresolved _ _ _ _ ih | other _ _ _ _ _ ih =>
    exact ih (hs.next rfl rfl rfl) hlimit
  | @cycle name _ _ _ i _ hoff _ hsome henter =>
    -- The interface calls itself by the name, and the name is off the path.
    have hkey : i.fqn = name := hw name (.interface i) hsome
    exact absurd (hkey ▸ Guard.mem_path_of_enter_cycle henter) hoff
  | cut _ _ _ _ _ rest =>
    have := rest.grows.limitExceeded_eq_nil hlimit
    simp [addLimit] at this
  | @entered name names s s₁ s' i guard hoff hnew hsome henter inner rest ihInner ihRest =>
    have hkey : i.fqn = name := hw name (.interface i) hsome
    have inside := hs.entered hw hoff hsome henter
    have hlimits : s₁.guard.limits = s.guard.limits :=
      inner.limits_eq.trans (Guard.limits_enter henter)
    obtain ⟨hinner, hattempts⟩ := ihInner inside (rest.grows.limitExceeded_eq_nil hlimit)
    obtain ⟨hrest, hattempts'⟩ := ihRest (hs.next hlimits rfl rfl) hlimit
    have hname : w.WithinDepth d i.fqn := by
      rw [hkey]
      refine ⟨trail, hs.goesOn name List.mem_cons_self ⟨i, hsome⟩, ?_⟩
      rw [inside.length_eq]
      exact inside.within
    constructor
    · -- What is new is the interface itself, or was written down inside it or after it.
      intro j hj
      rcases hrest j hj with hj | hj
      · rcases hinner j hj with hj | hj
        · rcases List.mem_append.1 hj with hj | hj
          · exact .inl hj
          · rw [List.mem_singleton.1 hj]
            exact .inr hname
        · exact .inr hj
      · exact .inr hj
    · intro _
      have hentered := Guard.attempts_le_of_entered henter
      rw [hs.limits] at hentered
      exact hattempts' (hattempts hentered)

end Walk

/-! ### The whole walk -/

theorem Walk.guard_addEnding (s : Walk) (e : ChainEnd) : (s.addEnding e).guard = s.guard := by
  cases e <;> rfl

/-- Where definitions are found under their own names, what names stand
for calls itself by these names. -/
theorem names_of_stands (hw : w.WellKeyed) {names : List String} :
    ∀ {found : List InterfaceDef}, names.map w.resolve = found.map (some <| .interface ·) →
      found.map (·.fqn) = names := by
  induction names with
  | nil =>
    intro found h
    rw [List.map_eq_nil_iff.1 h.symm]
    rfl
  | cons name names ih =>
    intro found h
    cases found with
    | nil => cases h
    | cons i found =>
      obtain ⟨hname, hrest⟩ := List.cons.inj h
      have hkey : i.fqn = name := hw name (.interface i) hname
      rw [List.map_cons, hkey, ih hrest]

/-- The walk from a definition to `s` goes through its sources, from
`s₀` to `s₁`. At its start nothing is found. An interface has asked for
itself by then, and stands on the path. -/
structure Ran (w : World) (d : TypeDef) (s₀ s₁ s : Walk) : Prop where
  run : Walk.run w d = .ok s
  walk : Walk.Exploration w (sources w d) s₀ s₁
  attempts : s.guard.attempts = s₁.guard.attempts
  interfaces : s.found.interfaces = s₁.found.interfaces
  limitExceeded : s.found.limitExceeded = s₁.found.limitExceeded
  start : s₀.found = { bases := (collect w d).bases }
  seen : s₀.seen = d.ownNames
  counted : s₀.Counted d.ownNames.length
  place : Walk.AtEndOf w d [] (sources w d) s₀

/-- At the start of the walk the trail is empty. -/
theorem atEndOf_nil {g : Guard} {s : Walk} (hs : s.guard = g) (hlimits : g.limits = .inheritance)
    (hpath : g.path = d.ownNames) (hdepth : g.depth = d.ownNames.length) :
    Walk.AtEndOf w d [] (sources w d) s := by
  subst hs
  exact {
    limits := hlimits
    path := by rw [List.append_nil, d.reverse_ownNames, hpath]
    depth := by rw [hdepth, hpath]
    within := by
      rw [hdepth]
      exact Nat.le_trans d.length_ownNames_le (by decide)
    nodup := by
      rw [List.append_nil]
      exact d.nodup_ownNames
    goesOn := fun x hx hinterface => {
      listed := by
        intro y hy
        cases hy
        exact listedBy_of_mem_sources hx
      chain := List.isChain_singleton x
      interfaces := fun y hy => by
        rw [List.mem_singleton.1 hy]
        exact hinterface } }

theorem exists_ran (w : World) (d : TypeDef) : ∃ s₀ s₁ s, Ran w d s₀ s₁ s := by
  cases d with
  | «class» c =>
    obtain ⟨s, hrun, -⟩ := Walk.returns_exploreClasses w (c :: (w.lineage c).bases)
      { found.bases := (w.lineage c).bases }
    refine ⟨{ found.bases := (w.lineage c).bases }, s, s.addEnding (w.lineage c).ending, {
      run := by simp only [Walk.run, hrun, bind, Except.bind]; rfl
      walk := ?_
      attempts := by rw [Walk.guard_addEnding]
      interfaces := Walk.addEnding_interfaces s _
      limitExceeded := Walk.addEnding_limitExceeded s _
      start := by rw [bases_collect]
      seen := rfl
      counted := rfl
      place := atEndOf_nil rfl rfl rfl rfl }⟩
    rw [sources, bases_collect]
    exact Walk.exploration_of_exploreClasses (Nat.zero_le _) hrun
  | interface i =>
    -- A new guard has an empty path and its whole budget, so it lets the name in.
    obtain ⟨guard, henter, hguard⟩ : ∃ guard, Guard.enter { limits := .inheritance } i.fqn
        = (.entered, guard) ∧ guard = ⟨.inheritance, [i.fqn], 1, 1, false⟩ := ⟨_, rfl, rfl⟩
    obtain ⟨s, hrun, -⟩ := Walk.returns_above (Walk.returns_explore w _) i { seen := [i.fqn] }
    have hbases : (collect w (.interface i)).bases = [] :=
      bases_eq_nil w fun c hc => by cases hc
    have hsources : sources w (.interface i) = i.interfaces := by
      rw [sources, hbases, List.flatMap_nil, List.append_nil]
      rfl
    rcases Walk.above_cases (Walk.returns_explore w _) hrun with
      ⟨guard', henter', rfl⟩ | ⟨e, guard', henter', he, rfl⟩ | ⟨guard', s₁, henter', hinner, rfl⟩
    · cases henter.symm.trans henter'
    · cases henter.symm.trans henter'
      cases he
    · cases henter.symm.trans henter'
      have hroom := (Guard.room_of_depth_le (Nat.zero_le _)).succ.enter henter
      refine ⟨{ guard, seen := [i.fqn] }, s₁, _, {
        run := hrun
        walk := ?_
        attempts := rfl
        interfaces := rfl
        limitExceeded := rfl
        start := by rw [hbases]
        seen := rfl
        counted := by
          subst hguard
          rfl
        place := atEndOf_nil hguard rfl rfl rfl }⟩
      rw [hsources]
      exact Walk.exploration_of_explore w _ hroom hinner
  | enum e =>
    have hbases : (collect w (.enum e)).bases = [] :=
      bases_eq_nil w fun c hc => by cases hc
    refine ⟨{}, {}, {}, {
      run := rfl
      walk := ?_
      attempts := rfl
      interfaces := rfl
      limitExceeded := rfl
      start := by rw [hbases]
      seen := rfl
      counted := rfl
      place := atEndOf_nil rfl rfl rfl rfl }⟩
    rw [sources, hbases]
    exact .done

namespace Ran

variable {s₀ s₁ s : Walk}

/-- The guard has counted what it was asked for. -/
theorem attempts_eq (h : Ran w d s₀ s₁ s) :
    s.guard.attempts = min (Walk.questions w d).length Guard.attemptCeiling := by
  have hcount : s₁.guard.attempts = min _ Guard.attemptCeiling := h.walk.counted h.counted
  rw [h.attempts, hcount, questions_eq, List.length_append, List.length_map, collect_eq h.run,
    h.interfaces]

/-- The interfaces that are found, by name: they are met for the first
time, each of them once. -/
theorem names (h : Ran w d s₀ s₁ s) (hw : w.WellKeyed) :
    (d.ownNames ++ s.found.interfaces.map (·.fqn)).Nodup ∧
      ∀ x ∈ s.found.interfaces.map (·.fqn), w.IsInterface x ∧ w.ListedAbove d x := by
  obtain ⟨new, hnew⟩ := h.walk.enumerates
  obtain ⟨found, hfound, hstands⟩ := hnew.entries
  rw [h.start, List.nil_append] at hfound
  have hnames : s.found.interfaces.map (·.fqn) = new := by
    rw [h.interfaces, hfound]
    exact names_of_stands hw hstands
  rw [hnames]
  constructor
  · refine List.nodup_append.2 ⟨d.nodup_ownNames, hnew.nodup, ?_⟩
    intro x hx y hy hxy
    rw [← h.seen, hxy] at hx
    exact (hnew.met y hy).1 hx
  · intro x hx
    refine ⟨?_, listedAbove_of_leads (hnew.listed x hx)⟩
    have hmem : w.resolve x ∈ found.map (some <| TypeDef.interface ·) := by
      rw [← hstands]
      exact List.mem_map_of_mem hx
    obtain ⟨i, -, hi⟩ := List.mem_map.1 hmem
    exact ⟨i, hi.symm⟩

/-- A limit is written down only for one of the two reasons. -/
theorem limit_cases (h : Ran w d s₀ s₁ s) (hw : w.WellKeyed)
    (hlimit : s.found.limitExceeded ≠ []) : w.TooDeep d ∨ w.TooMany d := by
  rcases h.walk.limits_cases hw h.place h.counted with hnone | hdeep | hmany
  · rw [h.limitExceeded, hnone, h.start] at hlimit
    exact absurd rfl hlimit
  · exact .inl hdeep
  · obtain ⟨hnodup, hnames⟩ := h.names hw
    refine .inr ⟨_, hnodup, hnames, ?_⟩
    rw [List.length_append, List.length_map, h.interfaces]
    exact hmany

/-- Without a limit, the guard was asked for no more than it grants. -/
theorem granted (h : Ran w d s₀ s₁ s) (hw : w.WellKeyed) (hlimit : s.found.limitExceeded = []) :
    (Walk.questions w d).length ≤ 100000 ∧
      ∀ x ∈ Walk.questions w d, x ∈ d.ownNames ∨ w.WithinDepth d x := by
  rw [h.limitExceeded] at hlimit
  obtain ⟨hwithin, hattempts⟩ := h.walk.granted hw h.place hlimit
  have hown := d.length_ownNames_le
  constructor
  · have hstart : s₀.guard.attempts = min (d.ownNames.length + s₀.found.interfaces.length) _ :=
      h.counted
    rw [h.start] at hstart
    have hend : s.guard.attempts ≤ 100000 := by
      rw [h.attempts]
      refine hattempts ?_
      rw [hstart]
      exact Nat.le_trans (Nat.min_le_left _ _) (Nat.le_trans hown (by decide))
    have hceiling : 100000 < Guard.attemptCeiling := by decide
    rw [h.attempts_eq] at hend
    omega
  · intro x hx
    rw [questions_eq, collect_eq h.run, h.interfaces] at hx
    refine (List.mem_append.1 hx).imp_right fun hx => ?_
    obtain ⟨i, hi, rfl⟩ := List.mem_map.1 hx
    rcases hwithin i hi with hi | hi
    · rw [h.start] at hi
      cases hi
    · exact hi

end Ran

/-- A world with so few interfaces has no chain of them that is too
deep, and not too many of them either. -/
theorem few_interfaces (hw : w.WellKeyed)
    (hfew : d.ownNames.length + w.interfaceNames.length ≤ 256) : ¬ (w.TooDeep d ∨ w.TooMany d) := by
  have bound {names : List String} (hnodup : (d.ownNames ++ names).Nodup)
      (hnames : ∀ x ∈ names, w.IsInterface x) : (d.ownNames ++ names).length ≤ 256 := by
    have hcount := World.length_le_interfaceNames hw (List.nodup_append.1 hnodup).2.1 hnames
    rw [List.length_append]
    omega
  intro h
  rcases h with ⟨trail, htrail, hnodup, hlength⟩ | ⟨names, hnodup, hnames, hlength⟩
  · have := bound hnodup htrail.interfaces
    omega
  · have := bound hnodup fun x hx => (hnames x hx).1
    omega

/-- The walk over the ancestors of a definition is not cut by a limit
without need, where definitions are found under their own names. It asks
the guard for no name twice: only for the definition itself, if that is
an interface, and for interfaces above it. A limit is written down only
if there is a chain of 257 different interfaces above the definition, or
if there are more than 100000 of them, and both counts include the
definition. So with few interfaces there is no limit, whatever cycles
these form, and however long the chain of base classes is. Where no
limit is written down, none was passed: there were at most 100000
questions, and each was for an interface at a depth of at most 256. -/
theorem collect_no_spurious_limit (w : World) (hw : w.WellKeyed) (d : TypeDef) :
    ∃ s, Walk.run w d = .ok s ∧
      s.guard.attempts = min (Walk.questions w d).length Guard.attemptCeiling ∧
      (Walk.questions w d).Nodup ∧
      (∀ x ∈ Walk.questions w d, x ∈ d.ownNames ∨ w.IsInterface x ∧ w.ListedAbove d x) ∧
      (Walk.questions w d).length ≤ w.interfaceNames.length + 1 ∧
      ((collect w d).limitExceeded ≠ [] → w.TooDeep d ∨ w.TooMany d) ∧
      (d.ownNames.length + w.interfaceNames.length ≤ 256 → (collect w d).limitExceeded = []) ∧
      ((collect w d).limitExceeded = [] → (Walk.questions w d).length ≤ 100000 ∧
        ∀ x ∈ Walk.questions w d, x ∈ d.ownNames ∨ w.WithinDepth d x) := by
  obtain ⟨s₀, s₁, s, hran⟩ := exists_ran w d
  have hcollect : collect w d = s.found := collect_eq hran.run
  obtain ⟨hnodup, hnames⟩ := hran.names hw
  have hown := d.length_ownNames_le
  have hcases := hran.limit_cases hw
  refine ⟨s, hran.run, hran.attempts_eq, ?_, ?_, ?_, ?_, ?_, ?_⟩
  · rw [questions_eq, hcollect]
    exact hnodup
  · intro x hx
    rw [questions_eq, hcollect] at hx
    exact (List.mem_append.1 hx).imp_right (hnames x)
  · have hcount := World.length_le_interfaceNames hw (List.nodup_append.1 hnodup).2.1
      fun x hx => (hnames x hx).1
    rw [questions_eq, hcollect, List.length_append]
    omega
  · rw [hcollect]
    exact hcases
  · intro hfew
    rw [hcollect]
    by_contra hlimit
    exact few_interfaces hw hfew (hcases hlimit)
  · rw [hcollect]
    exact hran.granted hw

/-- Two classes, each the base of the other, and three interfaces in a
circle that both of them list. -/
def circledPets : Assembly where
  name := "pet"
  types := [
    ("pet.Dog", .class {
      fqn := "pet.Dog", base := some "pet.Wolf", interfaces := ["pet.Runs", "pet.Barks"] }),
    ("pet.Wolf", .class { fqn := "pet.Wolf", base := some "pet.Dog", interfaces := ["pet.Hunts"] }),
    ("pet.Runs", .interface { fqn := "pet.Runs", interfaces := ["pet.Hunts"] }),
    ("pet.Hunts", .interface { fqn := "pet.Hunts", interfaces := ["pet.Barks"] }),
    ("pet.Barks", .interface { fqn := "pet.Barks", interfaces := ["pet.Runs", "pet.Hunts"] })]

/-- From each of the three interfaces, and from a class, the walk asks
for every interface once and writes no limit down. -/
theorem collect_no_spurious_limit_circledPets :
    (World.of circledPets []).WellKeyed ∧
    Walk.questions (World.of circledPets []) (.class {
      fqn := "pet.Dog", base := some "pet.Wolf", interfaces := ["pet.Runs", "pet.Barks"] })
      = ["pet.Runs", "pet.Hunts", "pet.Barks"] ∧
    ∀ entry ∈ circledPets.types,
      (collect (World.of circledPets []) entry.2).cycles ≠ [] ∧
      (collect (World.of circledPets []) entry.2).limitExceeded = [] ∧
      ∃ s, Walk.run (World.of circledPets []) entry.2 = .ok s ∧ s.guard.attempts = 3 := by
  have hkeyed : (World.of circledPets []).WellKeyed := World.wellKeyed_of (by decide +kernel)
  have hentries : ∀ entry ∈ circledPets.types,
      (collect (World.of circledPets []) entry.2).cycles ≠ [] ∧
      (Walk.questions (World.of circledPets []) entry.2).length = 3 ∧
      entry.2.ownNames.length + (World.of circledPets []).interfaceNames.length ≤ 256 := by
    decide +kernel
  refine ⟨hkeyed, by decide +kernel, fun entry hentry => ?_⟩
  obtain ⟨hcycles, hasked, hfew⟩ := hentries entry hentry
  obtain ⟨s, hrun, hattempts, -, -, -, -, hnone, -⟩ :=
    collect_no_spurious_limit (World.of circledPets []) hkeyed entry.2
  refine ⟨hcycles, hnone hfew, s, hrun, ?_⟩
  rw [hattempts, hasked]
  rfl

end Ancestors

end OverrideCheck
