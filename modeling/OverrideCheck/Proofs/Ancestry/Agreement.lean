import OverrideCheck.Proofs.Ancestry.Coverage
import OverrideCheck.Proofs.Narrowing.Completeness

/-!
# `OverrideCheck.Proofs.Ancestry.Agreement`: two walks over one graph

A query between two names and the collection of ancestors follow the
same edges, each in its own way. The query has a target. It stops when
it finds that, remembers the interfaces that it searched in vain, and
learns of a cycle from the guard. The collection has no target. It
marks a name when it first meets it, and asks whether the name is on
the path before it asks whether it was met.

This module shows that they agree, in a world where definitions are
found under their own names and as far as neither of them was cut by a
limit (`isAllowed_iff_mem_ancestors`). They are not compared with each
other: each is compared with inheritance. The query was, in
`Proofs/Narrowing/Completeness.lean`. For the ancestors there is
something left to do, because here they need not be complete.

Names that stand for nothing do no harm, they lead nowhere. A cycle
could do harm, since a name on the path is passed over. But a name on
the path has been met already: the path holds what definitions call
themselves, and here that is what they are met as. So the names met
are closed under edges after all (`Exploration.covers_of_wellKeyed`).
-/

set_option autoImplicit false

namespace OverrideCheck

open Relation (TransGen)

namespace Ancestors

variable {w : World}

namespace Walk

/-- Where definitions are found under their own names, a walk that no
limit has cut covers its names, if all names on its path have been
met. -/
theorem Exploration.covers_of_wellKeyed (hw : w.WellKeyed) {names : List String} {s s' : Walk}
    (h : Exploration w names s s') (hlimit : s'.found.limitExceeded = [])
    (hmet : s.guard.path ⊆ s.seen) : Covers w (fun _ => True) names s s' := by
  induction h with
  | done => exact ⟨nofun, fun x hx hxs => absurd hx hxs⟩
  | returned hpath rest ih =>
    exact (ih hlimit hmet).cons_quiet rest.grows ⟨rest.grows.seen (hmet hpath), trivial⟩
      fun x hx hxs => absurd hx hxs
  | met _ hseen rest ih =>
    exact (ih hlimit hmet).cons_quiet rest.grows ⟨rest.grows.seen hseen, trivial⟩
      fun x hx hxs => absurd hx hxs
  | unresolved _ _ hnone rest ih =>
    refine (ih hlimit (List.subset_cons_of_subset _ hmet)).cons_quiet rest.grows
      ⟨rest.grows.seen List.mem_cons_self, trivial⟩ fun x hx hxs i hi => ?_
    rw [(List.mem_cons.1 hx).resolve_right hxs, hnone] at hi
    cases hi
  | other _ _ hsome hkind rest ih =>
    refine (ih hlimit (List.subset_cons_of_subset _ hmet)).cons_quiet rest.grows
      ⟨rest.grows.seen List.mem_cons_self, trivial⟩ fun x hx hxs i hi => ?_
    rw [(List.mem_cons.1 hx).resolve_right hxs, hsome] at hi
    exact hkind i (Option.some.inj hi)
  | @cycle name _ _ _ i _ hpath _ hsome henter =>
    -- The interface calls itself by the name, and the name is off the path.
    have hkey : i.fqn = name := hw name (.interface i) hsome
    exact absurd (hkey ▸ Guard.mem_path_of_enter_cycle henter) hpath
  | cut _ _ _ _ _ rest =>
    have := rest.grows.limitExceeded_eq_nil hlimit
    simp [addLimit] at this
  | @entered name names s s₁ s' i guard _ _ hsome henter inner rest ihInner ihRest =>
    have hlimit₁ : s₁.found.limitExceeded = [] := rest.grows.limitExceeded_eq_nil hlimit
    have hkey : i.fqn = name := hw name (.interface i) hsome
    have hinside : guard.path ⊆ name :: s.seen := by
      rw [(Guard.enter_entered henter).2.1, hkey]
      exact List.cons_subset_cons _ hmet
    have hafter : s.guard.path ⊆ s₁.seen :=
      List.Subset.trans (List.subset_cons_of_subset _ hmet) inner.grows.seen
    exact (ihRest hlimit hafter).cons_entered (ihInner hlimit₁ hinside) hsome rest.grows
      ⟨rest.grows.seen (inner.grows.seen List.mem_cons_self), trivial⟩

end Walk

/-- Where definitions are found under their own names, the walk from a
definition meets every name that its sources lead to, unless a limit
cuts it. -/
theorem Walked.met_of_wellKeyed (hw : w.WellKeyed) {d : TypeDef} {s s' : Walk} {e : ChainEnd}
    (h : Walked w d s s' e) (hd : w.resolve d.fqn = some d)
    (hlimit : (collect w d).limitExceeded = []) {x : String} (hleads : w.Leads (sources w d) x) :
    x ∈ s'.seen := by
  rw [h.result, Walk.addEnding_limitExceeded] at hlimit
  have covers := h.walk.covers_of_wellKeyed hw hlimit (h.path ▸ List.Subset.refl _)
  have closed : ∀ x y, x ∈ s'.seen → w.InterfaceEdge x y → y ∈ s'.seen := by
    rintro x y hx ⟨i, hi, hy⟩
    by_cases hxs : x ∈ s.seen
    · -- Met from the start is the definition itself, and the walk goes through its list.
      rw [h.seen x hxs, hd] at hi
      cases hi
      exact (covers.names y (List.mem_append_left _ hy)).1
    · exact (covers.closed x hx hxs i hi y hy).1
  obtain ⟨z, hz, path⟩ := hleads
  exact World.mem_of_interfacePath closed (covers.names z hz).1 path

/-- Where definitions are found under their own names, an interface
above a definition is among its ancestors, unless a limit cuts the
walk. -/
theorem mem_interfaces_of_listedAbove (hw : w.WellKeyed) {d : TypeDef}
    (hd : w.resolve d.fqn = some d) (hlimit : (collect w d).limitExceeded = []) {x : String}
    {i : InterfaceDef} (habove : w.ListedAbove d x) (hi : w.resolve x = some (.interface i))
    (hne : x ≠ d.fqn) : i ∈ (collect w d).interfaces := by
  have hleads : w.Leads (sources w d) x := by
    refine leads_of_listedAbove ?_ habove
    rintro c m rfl chain
    exact World.mem_lineage_of_wellKeyed hw hd chain
  obtain ⟨s, s', e, h⟩ := exists_walked w d
  exact h.mem_interfaces (h.met_of_wellKeyed hw hd hlimit hleads) (fun hx => hne (h.seen x hx)) hi

/-- What another name inherits from is found among the ancestors,
unless a limit cuts the walk. -/
theorem mem_ancestors_of_inherits (hw : w.WellKeyed) {s t : String} {d : TypeDef}
    (hs : w.resolve s = some d) (hne : t ≠ s) (hlimit : (collect w d).limitExceeded = [])
    (h : w.Inherits s t) :
    (∃ b ∈ (collect w d).bases, b.fqn = t) ∨ ∃ i ∈ (collect w d).interfaces, i.fqn = t := by
  have hd := hw.resolve_fqn hs
  have hned : t ≠ d.fqn := by rwa [hw s d hs]
  cases h with
  | @subclass k l m hs' ht chain base =>
    rw [hs] at hs'
    cases hs'
    have hl : l.fqn = t := hw t (.class l) ht
    have hmem := World.mem_lineage_of_wellKeyed hw hd (chain.tail ⟨t, base, ht⟩)
    rw [bases_collect]
    rcases List.mem_cons.1 hmem with rfl | hmem
    · exact absurd hl.symm hned
    · exact .inl ⟨l, hmem, hl⟩
  | subinterface hs' ht leads =>
    rw [hs] at hs'
    cases hs'
    exact .inr ⟨_, mem_interfaces_of_listedAbove hw hd hlimit leads ht hned, hw t _ ht⟩
  | implementation hs' ht chain leads =>
    rw [hs] at hs'
    cases hs'
    exact .inr ⟨_, mem_interfaces_of_listedAbove hw hd hlimit ⟨_, chain, leads⟩ ht hned, hw t _ ht⟩

/-- A definition inherits from what its ancestors call themselves. -/
theorem inherits_of_mem_ancestors (hw : w.WellKeyed) {s t : String} {d : TypeDef}
    (hs : w.resolve s = some d)
    (h : (∃ b ∈ (collect w d).bases, b.fqn = t) ∨ ∃ i ∈ (collect w d).interfaces, i.fqn = t) :
    w.Inherits s t := by
  rcases h with ⟨b, hb, rfl⟩ | ⟨i, hi, rfl⟩
  · obtain ⟨c, rfl⟩ := exists_class_of_mem_bases hb
    rw [bases_collect] at hb
    obtain ⟨m, chain, base, hbase, hfound⟩ :=
      TransGen.tail'_iff.1 (World.transGen_of_mem_lineage hb)
    have hkey : b.fqn = base := hw base (.class b) hfound
    rw [hkey]
    exact .subclass hs hfound chain hbase
  · obtain ⟨x, hleads, hx⟩ := exists_leads_of_mem_interfaces hi
    have hkey : i.fqn = x := hw x (.interface i) hx
    have habove := listedAbove_of_leads hleads
    rw [hkey]
    cases d with
    | «class» c =>
      obtain ⟨m, chain, leads⟩ := habove
      exact .implementation hs hx chain leads
    | interface j => exact .subinterface hs hx habove
    | enum e => exact habove.elim

end Ancestors

open Ancestors (collect)

/-- The query and the ancestors agree. Take a world where definitions
are found under their own names, a name that stands for a definition,
and another name. If neither the query nor the walk from the definition
was cut by a limit, the first name may stand in for the second exactly
if a base class or an interface among the ancestors has the second
name. Cycles and names that stand for nothing are allowed. -/
theorem isAllowed_iff_mem_ancestors (w : World) (hw : w.WellKeyed) (s t : String) (d : TypeDef)
    (hs : w.resolve s = some d) (hne : t ≠ s) (hlimit : (collect w d).limitExceeded = [])
    (hexceeded : (Checker.new.ask w (some (.named s)) (some (.named t))).2.guard.exceeded = false) :
    isAllowed w (some (.named s)) (some (.named t)) = true ↔
      (∃ b ∈ (collect w d).bases, b.fqn = t) ∨ ∃ i ∈ (collect w d).interfaces, i.fqn = t := by
  have names := (Checker.descent_of_ask (w := w) (c := Checker.new) rfl rfl).comparison hne.symm
  constructor
  · intro hallowed
    exact Ancestors.mem_ancestors_of_inherits hw hs hne hlimit (names.inherits hne.symm hallowed)
  · intro hmem
    exact names.found_of_inherits hw rfl (.inr hexceeded)
      (Ancestors.inherits_of_mem_ancestors hw hs hmem)

/-- A class on a cycle of base classes. -/
def frayedDog : ClassDef where
  fqn := "pet.Dog"
  base := some "pet.Cat"
  interfaces := ["pet.Left", "pet.Nobody"]

/-- Two classes that are each other's base, two interfaces that list
each other, one above them, and two names that stand for nothing. -/
def frayedPets : Assembly where
  name := "pet"
  types := [
    ("pet.Dog", .class frayedDog),
    ("pet.Cat", .class { fqn := "pet.Cat", base := some "pet.Dog" }),
    ("pet.Left", .interface { fqn := "pet.Left", interfaces := ["pet.Right"] }),
    ("pet.Right", .interface {
      fqn := "pet.Right", interfaces := ["pet.Left", "pet.Far", "pet.None"] }),
    ("pet.Far", .interface { fqn := "pet.Far" })]

/-- The walk from the class has met cycles and names that stand for
nothing, but no limit. The class may stand in for the interface above
the two, which is among its ancestors. -/
theorem isAllowed_frayedPets :
    (collect (World.of frayedPets []) (.class frayedDog)).cycles = ["pet.Left", "pet.Dog"] ∧
    (collect (World.of frayedPets []) (.class frayedDog)).unresolved = ["pet.None", "pet.Nobody"] ∧
    (collect (World.of frayedPets []) (.class frayedDog)).limitExceeded = [] ∧
    isAllowed (World.of frayedPets []) (some (.named "pet.Dog")) (some (.named "pet.Far")) = true ∧
    ((∃ b ∈ (collect (World.of frayedPets []) (.class frayedDog)).bases, b.fqn = "pet.Far") ∨
      ∃ i ∈ (collect (World.of frayedPets []) (.class frayedDog)).interfaces,
        i.fqn = "pet.Far") := by
  have hkeyed : (World.of frayedPets []).WellKeyed := World.wellKeyed_of (by decide +kernel)
  have hlimit : (collect (World.of frayedPets []) (.class frayedDog)).limitExceeded = [] := by
    decide +kernel
  have hallowed : isAllowed (World.of frayedPets []) (some (.named "pet.Dog"))
      (some (.named "pet.Far")) = true := by decide +kernel
  refine ⟨by decide +kernel, by decide +kernel, hlimit, hallowed, ?_⟩
  exact (isAllowed_iff_mem_ancestors (World.of frayedPets []) hkeyed "pet.Dog" "pet.Far"
    (.class frayedDog) rfl (by decide) hlimit (by decide +kernel)).1 hallowed

end OverrideCheck
