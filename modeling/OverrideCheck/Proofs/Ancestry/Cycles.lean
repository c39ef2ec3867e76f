import OverrideCheck.Proofs.Ancestry.Coverage

/-!
# `OverrideCheck.Proofs.Ancestry.Cycles`: the cycles that the ancestor walk reports

A walk reports a cycle when it meets a name that is on its own path, or
when the chain of base classes comes back to a class. This module shows
that the report is exact, in a world where definitions are found under
their own names.

* Nothing is reported that is no cycle. Every name on the path leads to
  every name that the walk is about to meet, so a name that is both
  leads to itself (`Exploration.mem_cycles`). A diamond brings the walk
  back to a name that it met, and not to one on its path.
* No cycle is passed over. The walk skips what it met before, and a
  cycle could hide behind that. But if a walk has reported nothing and
  was not cut, then every name that it has met and left is one from
  which all paths end (`World.Ends`): such a name is left after all that
  it lists, and each of those was left before
  (`Exploration.ends_of_cycles_eq_nil`). From such a name no cycle can
  be reached (`not_transGen_of_acc`).

The chain of base classes is compared with its lineage in the same two
steps (`revisits_of_ending`, `World.acc_of_climb`). The result is
`collect_cycles_exact`.
-/

set_option autoImplicit false

namespace OverrideCheck

open Relation (ReflTransGen TransGen)

/-- If all paths from a point end, none of them comes to a cycle. -/
theorem not_transGen_of_acc {α : Type} {r : α → α → Prop} {x y : α}
    (h : Acc (Function.swap r) x) (path : ReflTransGen r x y) : ¬ TransGen r y y := by
  induction h with
  | intro x _ ih =>
    intro cycle
    rcases path.cases_head with rfl | ⟨z, step, path⟩
    · -- The path is at the cycle: go once around it.
      obtain ⟨z, step, back⟩ := TransGen.head'_iff.1 cycle
      exact ih z step back cycle
    · exact ih z step path cycle

namespace World

variable {w : World}

/-- All paths over interface edges that start at the name end. -/
def Ends (w : World) (x : String) : Prop := Acc (Function.swap w.InterfaceEdge) x

/-- A name that stands for no interface is where paths end. -/
theorem ends_of_no_interface {x : String} (h : ∀ i, w.resolve x ≠ some (.interface i)) :
    w.Ends x := by
  refine .intro x fun y edge => ?_
  obtain ⟨i, hi, -⟩ := edge
  exact absurd hi (h i)

/-- The paths from an interface end if those from all names that it
lists do. -/
theorem ends_of_interfaces {x : String} {i : InterfaceDef}
    (hi : w.resolve x = some (.interface i)) (h : ∀ y ∈ i.interfaces, w.Ends y) : w.Ends x := by
  refine .intro x fun y edge => ?_
  obtain ⟨j, hj, hy⟩ := edge
  rw [hi] at hj
  cases hj
  exact h y hy

/-- Where definitions are found under their own names, a class that
comes up again above itself does so over base edges of names. -/
theorem WellKeyed.baseEdges_of_revisited (hw : w.WellKeyed) {b : ClassDef}
    (h : TransGen w.BaseStep b b) : TransGen w.BaseEdge b.fqn b.fqn := by
  obtain ⟨m, chain, base, hbase, hfound⟩ := TransGen.tail'_iff.1 h
  have hkey : b.fqn = base := hw base (.class b) hfound
  rw [← hkey] at hbase hfound
  exact baseEdges_of_chain hfound chain hbase

/-- Where definitions are found under their own names, a lineage that
ends at a cycle has passed a class that comes up again. -/
theorem revisits_of_ending (hw : w.WellKeyed) {c : ClassDef}
    (hc : w.resolve c.fqn = some (.class c)) {name : String}
    (h : (w.lineage c).ending = .cycle name) :
    ∃ b, w.BaseChain c b ∧ b.fqn = name ∧ TransGen w.BaseStep b b := by
  obtain ⟨p, hname, habove⟩ := exists_above_of_ending_cycle [c.fqn] c name h
  have hp : w.resolve name = some (.class p) := by
    rw [← hname]
    exact hw.resolve_fqn_of_chain hc (habove c List.mem_cons_self).to_reflTransGen
  -- The class `q` that was met under the name is `p`, and `p` is above `q`.
  obtain ⟨q, hq, hqname⟩ := exists_mem_of_ending_cycle h
  have chain := baseChain_of_mem_lineage hq
  have hfound := hw.resolve_fqn_of_chain hc chain
  rw [hqname, hp] at hfound
  cases hfound
  exact ⟨p, chain, hname, habove p hq⟩

end World

namespace Ancestors

variable {w : World}

namespace Walk

/-- If no cycle was written down in the end, none was before. -/
theorem Grows.cycles_eq_nil {s s' : Walk} (h : Grows s s') (hs' : s'.found.cycles = []) :
    s.found.cycles = [] :=
  List.subset_nil.1 (hs' ▸ h.cycles)

/-- Let every name on the path lead to all names that are to be met.
Then a name that is written down as a cycle can be reached from them,
and leads to itself. -/
theorem Exploration.mem_cycles (hw : w.WellKeyed) {names : List String} {s s' : Walk}
    (h : Exploration w names s s')
    (hpath : ∀ p ∈ s.guard.path, ∀ x ∈ names, TransGen w.InterfaceEdge p x) :
    ∀ x ∈ s'.found.cycles,
      x ∈ s.found.cycles ∨ w.Leads names x ∧ TransGen w.InterfaceEdge x x := by
  -- What follows the first name of the list adds cycles of its own.
  have follow {name : String} {names : List String} {s s₁ s' : Walk}
      (ih : (∀ p ∈ s₁.guard.path, ∀ x ∈ names, TransGen w.InterfaceEdge p x) →
        ∀ x ∈ s'.found.cycles,
          x ∈ s₁.found.cycles ∨ w.Leads names x ∧ TransGen w.InterfaceEdge x x)
      (hpath : ∀ p ∈ s.guard.path, ∀ x ∈ name :: names, TransGen w.InterfaceEdge p x)
      (hsame : s₁.guard.path = s.guard.path)
      (hfirst : ∀ x ∈ s₁.found.cycles,
        x ∈ s.found.cycles ∨ w.Leads (name :: names) x ∧ TransGen w.InterfaceEdge x x) :
      ∀ x ∈ s'.found.cycles,
        x ∈ s.found.cycles ∨ w.Leads (name :: names) x ∧ TransGen w.InterfaceEdge x x := by
    intro x hx
    have hpath₁ : ∀ p ∈ s₁.guard.path, ∀ x ∈ names, TransGen w.InterfaceEdge p x := by
      rw [hsame]
      exact fun p hp x hx => hpath p hp x (List.mem_cons_of_mem _ hx)
    rcases ih hpath₁ x hx with hx | ⟨hleads, hcycle⟩
    · exact hfirst x hx
    · exact .inr ⟨hleads.mono (List.subset_cons_self _ _), hcycle⟩
  induction h with
  | done => exact fun x hx => .inl hx
  | @returned name names s s' hmem rest ih =>
    refine follow ih hpath rfl fun x hx => ?_
    rcases List.mem_append.1 hx with hx | hx
    · exact .inl hx
    · -- The name is on the path, and the path leads to it.
      rw [List.mem_singleton.1 hx]
      exact .inr ⟨.of_mem List.mem_cons_self, hpath name hmem name List.mem_cons_self⟩
  | met _ _ _ ih => exact follow ih hpath rfl fun x hx => .inl hx
  | unresolved _ _ _ _ ih => exact follow ih hpath rfl fun x hx => .inl hx
  | other _ _ _ _ _ ih => exact follow ih hpath rfl fun x hx => .inl hx
  | @cycle name _ _ _ i _ hoff _ hsome henter =>
    -- The interface calls itself by the name, and the name is off the path.
    have hkey : i.fqn = name := hw name (.interface i) hsome
    exact absurd (hkey ▸ Guard.mem_path_of_enter_cycle henter) hoff
  | cut _ _ _ henter he _ ih =>
    refine follow ih hpath ?_ fun x hx => .inl hx
    refine (Guard.enter_denied henter ?_).1
    rintro rfl
    cases he
  | @entered name names s s₁ s' i guard _ _ hsome henter inner rest ihInner ihRest =>
    have hkey : i.fqn = name := hw name (.interface i) hsome
    -- One level further down, the path has the name, too.
    have hinner : ∀ p ∈ guard.path, ∀ x ∈ i.interfaces, TransGen w.InterfaceEdge p x := by
      intro p hp x hx
      have edge : w.InterfaceEdge name x := ⟨i, hsome, hx⟩
      rw [(Guard.enter_entered henter).2.1, hkey] at hp
      rcases List.mem_cons.1 hp with rfl | hp
      · exact .single edge
      · exact (hpath p hp name List.mem_cons_self).tail edge
    refine follow ihRest hpath rfl fun x hx => ?_
    rcases ihInner hinner x hx with hx | ⟨hleads, hcycle⟩
    · exact .inl hx
    · exact .inr ⟨.of_listed List.mem_cons_self hsome hleads, hcycle⟩

/-- Let a walk report no cycle and meet no limit, and let the paths end
from every name that was met and left before it. Then they end from its
names, and from every name that was met and left after it. -/
theorem Exploration.ends_of_cycles_eq_nil (hw : w.WellKeyed) {names : List String} {s s' : Walk}
    (h : Exploration w names s s') (hcycles : s'.found.cycles = [])
    (hlimit : s'.found.limitExceeded = [])
    (hleft : ∀ x ∈ s.seen, x ∉ s.guard.path → w.Ends x) :
    (∀ x ∈ names, w.Ends x) ∧ ∀ x ∈ s'.seen, x ∉ s.guard.path → w.Ends x := by
  -- A name that stands for no interface is met: the names left are that one and those before.
  have mark {name : String} {s : Walk} (hname : w.Ends name)
      (hleft : ∀ x ∈ s.seen, x ∉ s.guard.path → w.Ends x) :
      ∀ x ∈ (s.mark name).seen, x ∉ s.guard.path → w.Ends x := by
    intro x hx hoff
    rcases List.mem_cons.1 hx with rfl | hx
    · exact hname
    · exact hleft x hx hoff
  induction h with
  | done => exact ⟨by simp, hleft⟩
  | returned _ rest =>
    have := rest.grows.cycles_eq_nil hcycles
    simp [addCycle] at this
  | @met name _ _ _ hoff hseen _ ih =>
    obtain ⟨hnames, hafter⟩ := ih hcycles hlimit hleft
    exact ⟨List.forall_mem_cons.2 ⟨hleft name hseen hoff, hnames⟩, hafter⟩
  | unresolved _ _ hnone _ ih =>
    have hname := World.ends_of_no_interface (w := w) fun i hi =>
      absurd (hnone.symm.trans hi) (by simp)
    obtain ⟨hnames, hafter⟩ := ih hcycles hlimit (mark hname hleft)
    exact ⟨List.forall_mem_cons.2 ⟨hname, hnames⟩, hafter⟩
  | other _ _ hsome hkind _ ih =>
    have hname := World.ends_of_no_interface (w := w) fun i hi =>
      hkind i (Option.some.inj (hsome.symm.trans hi))
    obtain ⟨hnames, hafter⟩ := ih hcycles hlimit (mark hname hleft)
    exact ⟨List.forall_mem_cons.2 ⟨hname, hnames⟩, hafter⟩
  | cycle _ _ _ _ rest =>
    have := rest.grows.cycles_eq_nil hcycles
    simp [addCycle] at this
  | cut _ _ _ _ _ rest =>
    have := rest.grows.limitExceeded_eq_nil hlimit
    simp [addLimit] at this
  | @entered name names s s₁ s' i guard _ _ hsome henter inner rest ihInner ihRest =>
    have hkey : i.fqn = name := hw name (.interface i) hsome
    have hpath : guard.path = name :: s.guard.path := by
      rw [(Guard.enter_entered henter).2.1, hkey]
    -- Inside the interface, its own name is on the path and not yet left.
    have hbefore : ∀ x ∈ name :: s.seen, x ∉ guard.path → w.Ends x := by
      intro x hx hoff
      rw [hpath, List.mem_cons, not_or] at hoff
      exact hleft x ((List.mem_cons.1 hx).resolve_left hoff.1) hoff.2
    obtain ⟨hlisted, hinside⟩ := ihInner (rest.grows.cycles_eq_nil hcycles)
      (rest.grows.limitExceeded_eq_nil hlimit) hbefore
    -- Behind it the name is left, and all that it lists was left before.
    have hname : w.Ends name := World.ends_of_interfaces hsome hlisted
    have hafter : ∀ x ∈ s₁.seen, x ∉ s.guard.path → w.Ends x := by
      intro x hx hoff
      by_cases hxname : x = name
      · rw [hxname]
        exact hname
      · refine hinside x hx fun hmem => ?_
        have hmem : x ∈ guard.path := hmem
        rw [hpath, List.mem_cons] at hmem
        exact hmem.elim hxname hoff
    obtain ⟨hnames, hend⟩ := ihRest hcycles hlimit hafter
    exact ⟨List.forall_mem_cons.2 ⟨hname, hnames⟩, hend⟩

/-- A cycle that is written down was met by the walk, or is how the
lineage ended. -/
theorem mem_cycles_addEnding {s : Walk} {e : ChainEnd} {x : String}
    (hx : x ∈ (s.addEnding e).found.cycles) : x ∈ s.found.cycles ∨ e = .cycle x := by
  cases e with
  | root | nonClass | unresolved => exact .inl hx
  | cycle name =>
    rcases List.mem_append.1 hx with hx | hx
    · exact .inl hx
    · exact .inr (by rw [List.mem_singleton.1 hx])

theorem cycles_subset_addEnding (s : Walk) (e : ChainEnd) :
    s.found.cycles ⊆ (s.addEnding e).found.cycles := by
  cases e <;> simp [addEnding, addCycle, addUnresolved]

end Walk

/-- The end of a lineage at a cycle is written down. -/
theorem ending_ne_cycle {c : ClassDef} (h : (collect w (.class c)).cycles = []) (name : String) :
    (w.lineage c).ending ≠ .cycle name := by
  have hc := collection_of_collect w (.class c)
  generalize collect w (.class c) = a at h hc
  cases hc with
  | ofClass _ =>
    intro hend
    simp [hend, Walk.addEnding, Walk.addCycle] at h

/-- Where definitions are found under their own names, a cycle that is
reported is one: a class on the base chain that comes up again, or a
name above the definition that leads to itself. -/
theorem cycle_of_mem_cycles (hw : w.WellKeyed) {d : TypeDef} (hd : w.resolve d.fqn = some d)
    {x : String} (hx : x ∈ (collect w d).cycles) :
    (∃ c b, d = .class c ∧ w.BaseChain c b ∧ b.fqn = x ∧ TransGen w.BaseStep b b) ∨
      w.ListedAbove d x ∧ TransGen w.InterfaceEdge x x := by
  have hcollected := collection_of_collect w d
  generalize collect w d = a at hx hcollected
  cases hcollected with
  | @ofClass c s hwalk =>
    rcases Walk.mem_cycles_addEnding hx with hx | hend
    · rcases hwalk.mem_cycles hw (fun p hp => absurd hp List.not_mem_nil) x hx with
        hx | ⟨hleads, hcycle⟩
      · exact absurd hx List.not_mem_nil
      · obtain ⟨k, hk, hleads⟩ := hleads.exists_of_flatMap
        exact .inr ⟨⟨k, World.baseChain_of_mem_lineage hk, hleads⟩, hcycle⟩
    · obtain ⟨b, chain, hname, hcycle⟩ := World.revisits_of_ending hw hd hend
      exact .inl ⟨c, b, rfl, chain, hname, hcycle⟩
  | @ofInterface i guard s hpath hwalk =>
    -- The interface itself is on the path, and lists what is to be met.
    have hlists : ∀ p ∈ guard.path, ∀ x ∈ i.interfaces, TransGen w.InterfaceEdge p x := by
      intro p hp x hx
      rw [hpath, List.mem_singleton] at hp
      rw [hp]
      exact .single ⟨i, hd, hx⟩
    rcases hwalk.mem_cycles hw hlists x hx with hx | ⟨hleads, hcycle⟩
    · exact absurd hx List.not_mem_nil
    · exact .inr ⟨hleads, hcycle⟩
  | ofEnum => cases hx

/-- Where definitions are found under their own names, the paths end
from all names above a definition, if its ancestors have neither cycles
nor limits. -/
theorem ends_of_listedAbove (hw : w.WellKeyed) {d : TypeDef} (hd : w.resolve d.fqn = some d)
    (hcycles : (collect w d).cycles = []) (hlimit : (collect w d).limitExceeded = []) {x : String}
    (habove : w.ListedAbove d x) : w.Ends x := by
  have hleads : w.Leads (sources w d) x := by
    refine leads_of_listedAbove ?_ habove
    rintro c m rfl chain
    exact World.mem_lineage_of_wellKeyed hw hd chain
  obtain ⟨s, s', e, h⟩ := exists_walked w d
  rw [h.result] at hcycles hlimit
  rw [Walk.addEnding_limitExceeded] at hlimit
  have hcycles' : s'.found.cycles = [] :=
    List.subset_nil.1 (hcycles ▸ Walk.cycles_subset_addEnding s' e)
  -- From the start only names of the path have been met.
  have hstart : ∀ y ∈ s.seen, y ∉ s.guard.path → w.Ends y := by
    intro y hy hoff
    rw [h.path] at hoff
    exact absurd hy hoff
  have hnames := (h.walk.ends_of_cycles_eq_nil hw hcycles' hlimit hstart).1
  obtain ⟨z, hz, path⟩ := hleads
  exact World.mem_of_interfacePath (fun x y hx edge => hx.inv edge) (hnames z hz) path

/-- Cycles are reported exactly. Take a world where definitions are
found under their own names, and a definition that is found there. If
no limit cuts the walk, its ancestors have cycles exactly if a class
comes up again on its base chain, or if an interface lies on a cycle
which is the definition itself or can be reached from what it or a
class on its base chain lists. Limit or not, every name that is
reported leads to itself, over base edges or over interface edges. -/
theorem collect_cycles_exact (w : World) (hw : w.WellKeyed) (d : TypeDef)
    (hd : w.resolve d.fqn = some d) :
    ((collect w d).limitExceeded = [] →
      ((collect w d).cycles ≠ [] ↔
        (∃ c b, d = .class c ∧ w.BaseChain c b ∧ TransGen w.BaseStep b b) ∨
        ∃ x, ((∃ i, d = .interface i ∧ x = i.fqn) ∨ w.ListedAbove d x) ∧
          TransGen w.InterfaceEdge x x)) ∧
    ∀ x ∈ (collect w d).cycles, TransGen w.BaseEdge x x ∨ TransGen w.InterfaceEdge x x := by
  refine ⟨fun hlimit => ⟨fun hcycles => ?_, fun h hcycles => ?_⟩, fun x hx => ?_⟩
  · obtain ⟨x, hx⟩ := List.exists_mem_of_ne_nil _ hcycles
    rcases cycle_of_mem_cycles hw hd hx with ⟨c, b, rfl, chain, -, hcycle⟩ | ⟨habove, hcycle⟩
    · exact .inl ⟨c, b, rfl, chain, hcycle⟩
    · exact .inr ⟨x, .inr habove, hcycle⟩
  · rcases h with ⟨c, b, rfl, chain, hcycle⟩ | ⟨x, hx, hcycle⟩
    · have hends := World.acc_of_climb [c.fqn] c (ending_ne_cycle hcycles)
      exact not_transGen_of_acc hends chain hcycle
    · have hends : w.Ends x := by
        rcases hx with ⟨i, rfl, rfl⟩ | habove
        · exact World.ends_of_interfaces hd fun y hy =>
            ends_of_listedAbove hw hd hcycles hlimit (World.Leads.of_mem hy)
        · exact ends_of_listedAbove hw hd hcycles hlimit habove
      exact not_transGen_of_acc hends .refl hcycle
  · rcases cycle_of_mem_cycles hw hd hx with ⟨c, b, -, -, rfl, hcycle⟩ | ⟨-, hcycle⟩
    · exact .inl (hw.baseEdges_of_revisited hcycle)
    · exact .inr hcycle

/-- A class that lists two interfaces and a name that stands for
nothing. -/
def loopedDog : ClassDef where
  fqn := "pet.Dog"
  base := some "pet.Animal"
  interfaces := ["pet.Left", "pet.Right", "pet.Nobody"]

/-- The two interfaces are the sides of a diamond, and the top of the
diamond is one of two interfaces that list each other. The chain of
bases comes to an end. -/
def loopedPets : Assembly where
  name := "pet"
  types := [
    ("pet.Dog", .class loopedDog),
    ("pet.Animal", .class { fqn := "pet.Animal", interfaces := ["pet.Right"] }),
    ("pet.Left", .interface { fqn := "pet.Left", interfaces := ["pet.Top"] }),
    ("pet.Right", .interface { fqn := "pet.Right", interfaces := ["pet.Top"] }),
    ("pet.Top", .interface { fqn := "pet.Top", interfaces := ["pet.Back"] }),
    ("pet.Back", .interface { fqn := "pet.Back", interfaces := ["pet.Top"] })]

/-- The walk from the class comes to the top of the diamond three times
and to the cycle once. It reports a cycle since there is one above the
class, and the name that it reports leads to itself. -/
theorem collect_cycles_loopedPets :
    (collect (World.of loopedPets []) (.class loopedDog)).limitExceeded = [] ∧
    (collect (World.of loopedPets []) (.class loopedDog)).cycles = ["pet.Top"] ∧
    (collect (World.of loopedPets []) (.class loopedDog)).cycles ≠ [] ∧
    (TransGen (World.of loopedPets []).BaseEdge "pet.Top" "pet.Top" ∨
      TransGen (World.of loopedPets []).InterfaceEdge "pet.Top" "pet.Top") := by
  have hkeyed : (World.of loopedPets []).WellKeyed := World.wellKeyed_of (by decide +kernel)
  have hlimit : (collect (World.of loopedPets []) (.class loopedDog)).limitExceeded = [] := by
    decide +kernel
  have hcycles : (collect (World.of loopedPets []) (.class loopedDog)).cycles = ["pet.Top"] := by
    decide +kernel
  obtain ⟨hiff, hloops⟩ :=
    collect_cycles_exact (World.of loopedPets []) hkeyed (.class loopedDog) rfl
  refine ⟨hlimit, hcycles, (hiff hlimit).2 (.inr ⟨"pet.Top", .inr ?_, ?_⟩),
    hloops "pet.Top" (hcycles ▸ List.mem_cons_self)⟩
  · exact ⟨loopedDog, .refl, .of_listed List.mem_cons_self rfl (.of_mem List.mem_cons_self)⟩
  · exact .head ⟨_, rfl, List.mem_cons_self⟩ (.single ⟨_, rfl, List.mem_cons_self⟩)

end Ancestors

end OverrideCheck
