import Mathlib.Data.List.Chain
import Mathlib.Data.List.Dedup
import Mathlib.Data.List.Perm.Subperm
import OverrideCheck.Proofs.Inheritance
import OverrideCheck.Walk.Guard

/-!
# `OverrideCheck.Proofs.InterfaceChain`: how long chains of interfaces are

Reachability over interface edges says nothing about distance, and a
walk with limits depends on it. This module counts the interfaces of a
chain, and the interfaces of a world.

* `World.ListedWithin w n s t`: a chain of at most `n` interfaces
  starts at `s`, each of them lists the next, and the last one lists
  `t`. The target need not stand for anything and is not counted.
  `listedWithin_succ` takes the first interface off the chain.
* `World.interfaceNames`: the names that stand for interfaces, each
  once. Without cycles no interface comes up twice on a chain, so a
  chain is no longer than this list (`length_le_of_isChain`).

`World.PathLeads` is the fact about the path of a walk that turns a
name met again into a cycle: every name on the path leads to all names
that the walk is about to meet.
-/

set_option autoImplicit false

namespace OverrideCheck

open Relation (ReflTransGen TransGen)

namespace World

variable {w : World}

/-- The name stands for an interface. -/
def IsInterface (w : World) (x : String) : Prop := ∃ i, w.resolve x = some (.interface i)

/-- A chain of at most `n` interfaces starts at `s`, each of them lists
the next one, and the last one lists `t`. -/
def ListedWithin (w : World) (n : Nat) (s t : String) : Prop :=
  ∃ chain : List String, chain.head? = some s ∧ chain.length ≤ n ∧
    (chain ++ [t]).IsChain w.InterfaceEdge

/-- The names that stand for interfaces, each of them once. -/
def interfaceNames (w : World) : List String :=
  (w.definitions.map TypeDef.fqn).dedup.filter fun x =>
    ((w.resolve x).bind TypeDef.interface?).isSome

/-- Every name on the path leads to all of the names. -/
def PathLeads (w : World) (path names : List String) : Prop :=
  ∀ p ∈ path, ∀ x ∈ names, TransGen w.InterfaceEdge p x

/-- At its start a walk has no path. -/
theorem pathLeads_nil (names : List String) : w.PathLeads [] names :=
  fun _ hp => absurd hp List.not_mem_nil

theorem PathLeads.tail {path names : List String} {name : String}
    (h : w.PathLeads path (name :: names)) : w.PathLeads path names :=
  fun p hp x hx => h p hp x (List.mem_cons_of_mem _ hx)

/-- A name that is refused is passed over. -/
theorem PathLeads.denied {g g' : Guard} {fqn name : String} {names : List String} {e : Entry}
    (h : w.PathLeads g.path (name :: names)) (henter : g.enter fqn = (e, g'))
    (he : e ≠ .entered) : w.PathLeads g'.path names := by
  rw [(Guard.enter_denied henter he).1]
  exact h.tail

/-- One level further down, the path has the name as well. It is there
as what the interface calls itself. -/
theorem PathLeads.entered (hw : w.WellKeyed) {g g' : Guard} {name : String} {names : List String}
    {i : InterfaceDef} (h : w.PathLeads g.path (name :: names))
    (hsome : w.resolve name = some (.interface i)) (henter : g.enter i.fqn = (.entered, g')) :
    w.PathLeads g'.path i.interfaces := by
  have hkey : i.fqn = name := hw name (.interface i) hsome
  intro p hp x hx
  have edge : w.InterfaceEdge name x := ⟨i, hsome, hx⟩
  rw [(Guard.enter_entered henter).2.1, hkey] at hp
  rcases List.mem_cons.1 hp with rfl | hp
  · exact .single edge
  · exact (h p hp name List.mem_cons_self).tail edge

/-- An interface that is refused because it is on the path is on a
cycle. -/
theorem PathLeads.cycle (hw : w.WellKeyed) {g g' : Guard} {name : String} {names : List String}
    {i : InterfaceDef} (h : w.PathLeads g.path (name :: names))
    (hsome : w.resolve name = some (.interface i)) (henter : g.enter i.fqn = (.cycle, g')) :
    TransGen w.InterfaceEdge i.fqn i.fqn := by
  have hmem := Guard.mem_path_of_enter_cycle henter
  have hkey : i.fqn = name := hw name (.interface i) hsome
  rw [hkey] at hmem ⊢
  exact h name hmem name List.mem_cons_self

theorem not_listedWithin_zero {s t : String} : ¬ w.ListedWithin 0 s t := by
  rintro ⟨chain, hhead, hlength, -⟩
  rw [List.length_eq_zero_iff.1 (Nat.le_zero.1 hlength)] at hhead
  cases hhead

/-- The first interface of a chain lists the target, or a name from
which a chain with one interface less goes on. -/
theorem listedWithin_succ {n : Nat} {s t : String} :
    w.ListedWithin (n + 1) s t ↔ ∃ y, w.InterfaceEdge s y ∧ (y = t ∨ w.ListedWithin n y t) := by
  constructor
  · rintro ⟨chain, hhead, hlength, hchain⟩
    match chain, hhead with
    | [_], rfl => exact ⟨t, hchain.rel, .inl rfl⟩
    | _ :: y :: rest, rfl =>
      rw [List.cons_append, List.cons_append, List.isChain_cons_cons] at hchain
      exact ⟨y, hchain.1, .inr ⟨y :: rest, rfl, Nat.le_of_succ_le_succ hlength, hchain.2⟩⟩
  · rintro ⟨y, edge, rfl | ⟨chain, hhead, hlength, hchain⟩⟩
    · refine ⟨[s], rfl, ?_, ?_⟩
      · simp
      · simpa using edge
    · refine ⟨s :: chain, rfl, Nat.succ_le_succ hlength, ?_⟩
      rw [List.cons_append]
      refine hchain.cons fun z hz => ?_
      rw [List.head?_append, hhead] at hz
      cases hz
      exact edge

/-- What is at the end of a chain can be reached. -/
theorem ListedWithin.reachable {n : Nat} {s t : String} (h : w.ListedWithin n s t) :
    ReflTransGen w.InterfaceEdge s t := by
  induction n generalizing s with
  | zero => exact absurd h not_listedWithin_zero
  | succ n ih =>
    obtain ⟨y, edge, rfl | rest⟩ := listedWithin_succ.1 h
    · exact .single edge
    · exact .head edge (ih rest)

/-- Where definitions are found under their own names, no interface is
missing from the list. -/
theorem mem_interfaceNames (hw : w.WellKeyed) {x : String} :
    x ∈ w.interfaceNames ↔ w.IsInterface x := by
  simp only [interfaceNames, List.mem_filter, List.mem_dedup, List.mem_map]
  constructor
  · rintro ⟨-, hx⟩
    obtain ⟨i, hi⟩ := Option.isSome_iff_exists.1 hx
    obtain ⟨d, hd, hkind⟩ := Option.bind_eq_some_iff.1 hi
    cases d with
    | interface j => exact ⟨j, hd⟩
    | _ => cases hkind
  · rintro ⟨i, hi⟩
    refine ⟨⟨_, w.mem_of_resolve hi, hw x _ hi⟩, ?_⟩
    rw [hi]
    rfl

/-- Interfaces without repetition are no more than there are in the
world. -/
theorem length_le_interfaceNames (hw : w.WellKeyed) {names : List String} (hnodup : names.Nodup)
    (hnames : ∀ x ∈ names, w.IsInterface x) : names.length ≤ w.interfaceNames.length :=
  (List.subperm_of_subset hnodup fun x hx => (mem_interfaceNames hw).2 (hnames x hx)).length_le

/-- Every name of a chain leads to all that come after it. -/
theorem pairwise_of_isChain {chain : List String} (h : chain.IsChain w.InterfaceEdge) :
    chain.Pairwise (TransGen w.InterfaceEdge) :=
  List.isChain_iff_pairwise.1 (h.imp fun _ _ edge => .single edge)

/-- Without cycles no name comes up twice on a chain. -/
theorem nodup_of_isChain (hacyclic : ∀ x, ¬ TransGen w.InterfaceEdge x x) {chain : List String}
    (h : chain.IsChain w.InterfaceEdge) : chain.Nodup := by
  refine (pairwise_of_isChain h).imp fun {x y} path heq => ?_
  rw [heq] at path
  exact hacyclic y path

/-- Without cycles a chain of interfaces is no longer than the list of
all interfaces. -/
theorem length_le_of_isChain (hw : w.WellKeyed) (hacyclic : ∀ x, ¬ TransGen w.InterfaceEdge x x)
    {chain : List String} (h : chain.IsChain w.InterfaceEdge)
    (hinterfaces : ∀ x ∈ chain, w.IsInterface x) : chain.length ≤ w.interfaceNames.length :=
  length_le_interfaceNames hw (nodup_of_isChain hacyclic h) hinterfaces

end World

end OverrideCheck
