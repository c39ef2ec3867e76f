import Mathlib.Data.Nat.Basic
import Mathlib.Logic.Relation
import OverrideCheck.World

/-!
# `OverrideCheck.Proofs.Inheritance`: the inheritance graph of a world

The walks over a world keep paths, memories and budgets. What they are
supposed to find has none of these: it is reachability in a graph, and
this module states it without looking at any walk.

There are two kinds of edges. `World.BaseStep` goes from a class to the
class that its base name stands for, so a class has at most one of
them (`baseStep_unique`). `World.InterfaceEdge` goes from a name that
stands for an interface to each name which that interface lists. The
listed name may stand for anything, or for nothing: then it has no
edges of its own, and the path ends there.

`World.Inherits s t` is the relation between two names that the
narrowing of named types is about. It has one rule for each pair of
kinds that can be related. The definitions decide nothing and assume
nothing: cycles are allowed, and a name need not agree with what the
definition found under it calls itself.

`Inherits.trans` is the law that chains of overrides rest on. In a
world without cycles (`World.Acyclic`) no two names inherit from each
other (`Inherits.asymm`).
-/

set_option autoImplicit false

namespace OverrideCheck

open Relation (ReflTransGen TransGen)

namespace World

variable {w : World}

/-- The base that the first class names stands for the second class. -/
def BaseStep (w : World) (c parent : ClassDef) : Prop :=
  ∃ base, c.base = some base ∧ w.resolve base = some (.class parent)

/-- The second class is the first one, or lies on its chain of base
classes. -/
abbrev BaseChain (w : World) : ClassDef → ClassDef → Prop := ReflTransGen w.BaseStep

/-- The first name stands for a class that names the second as its
base. -/
def BaseEdge (w : World) (x y : String) : Prop :=
  ∃ c, w.resolve x = some (.class c) ∧ c.base = some y

/-- The first name stands for an interface that lists the second. -/
def InterfaceEdge (w : World) (x y : String) : Prop :=
  ∃ i, w.resolve x = some (.interface i) ∧ y ∈ i.interfaces

/-- The target is one of the names, or can be reached from one of them
over interface edges. -/
def Leads (w : World) (names : List String) (target : String) : Prop :=
  ∃ x ∈ names, ReflTransGen w.InterfaceEdge x target

/-- No name leads back to itself over base edges, and none over
interface edges. A cycle that needs edges of both kinds is allowed: it
passes through a base that is no class and through a listed name that
is no interface, and nothing is inherited through those. -/
structure Acyclic (w : World) : Prop where
  bases : ∀ x, ¬ TransGen w.BaseEdge x x
  interfaces : ∀ x, ¬ TransGen w.InterfaceEdge x x

/-- What stands under the first name inherits from what stands under
the second. Both names stand for something. -/
inductive Inherits (w : World) (s t : String) : Prop where
  /-- Two classes: the second is named as base by the first class or by
  one on its base chain. -/
  | subclass {k l m : ClassDef} (hs : w.resolve s = some (.class k))
      (ht : w.resolve t = some (.class l)) (chain : w.BaseChain k m) (base : m.base = some t)
  /-- Two interfaces: the second is listed by the first interface or by
  one that can be reached from it. -/
  | subinterface {i j : InterfaceDef} (hs : w.resolve s = some (.interface i))
      (ht : w.resolve t = some (.interface j)) (leads : w.Leads i.interfaces t)
  /-- A class and an interface: the interface is listed, directly or
  through other interfaces, by the class or by one on its base
  chain. -/
  | implementation {k m : ClassDef} {j : InterfaceDef} (hs : w.resolve s = some (.class k))
      (ht : w.resolve t = some (.interface j)) (chain : w.BaseChain k m)
      (leads : w.Leads m.interfaces t)

/-- A class names at most one base, and a name stands for at most one
definition. -/
theorem baseStep_unique {c a b : ClassDef} (ha : w.BaseStep c a) (hb : w.BaseStep c b) :
    a = b := by
  obtain ⟨x, hx, hxa⟩ := ha
  obtain ⟨y, hy, hyb⟩ := hb
  rw [hx] at hy
  cases hy
  rw [hxa] at hyb
  cases hyb
  rfl

theorem Leads.of_mem {names : List String} {t : String} (h : t ∈ names) : w.Leads names t :=
  ⟨t, h, .refl⟩

/-- What can be reached from some of the names can be reached from all
of them. -/
theorem Leads.mono {names names' : List String} {t : String} (h : w.Leads names t)
    (hsub : names ⊆ names') : w.Leads names' t := by
  obtain ⟨x, hx, path⟩ := h
  exact ⟨x, hsub hx, path⟩

/-- A path through an interface of the list goes on along what that
interface lists. -/
theorem Leads.of_listed {names : List String} {x t : String} {i : InterfaceDef} (hx : x ∈ names)
    (hi : w.resolve x = some (.interface i)) (h : w.Leads i.interfaces t) : w.Leads names t := by
  obtain ⟨y, hy, path⟩ := h
  exact ⟨x, hx, .head ⟨i, hi, hy⟩ path⟩

/-- Past a target that is an interface itself, the path goes on along
what the target lists. -/
theorem Leads.trans {names : List String} {t u : String} {j : InterfaceDef}
    (h : w.Leads names t) (ht : w.resolve t = some (.interface j)) (k : w.Leads j.interfaces u) :
    w.Leads names u := by
  obtain ⟨x, hx, path⟩ := h
  obtain ⟨y, hy, path'⟩ := k
  exact ⟨x, hx, path.trans (.head ⟨j, ht, hy⟩ path')⟩

/-- From a name that is not the target itself, the path to the target
starts along what its interface lists. -/
theorem Leads.interfaces_of_singleton {s t : String} {i : InterfaceDef} (h : w.Leads [s] t)
    (hne : s ≠ t) (hs : w.resolve s = some (.interface i)) : w.Leads i.interfaces t := by
  obtain ⟨x, hx, path⟩ := h
  rw [List.mem_singleton.1 hx] at path
  rcases path.cases_head with heq | ⟨y, ⟨j, hj, hy⟩, path⟩
  · exact absurd heq hne
  · rw [hs] at hj
    cases hj
    exact ⟨y, hy, path⟩

/-- What can be reached from the lists of several classes can be
reached from the list of one of them. -/
theorem Leads.exists_of_flatMap {classes : List ClassDef} {t : String}
    (h : w.Leads (classes.flatMap (·.interfaces)) t) : ∃ k ∈ classes, w.Leads k.interfaces t := by
  obtain ⟨x, hx, path⟩ := h
  obtain ⟨k, hk, hmem⟩ := List.mem_flatMap.1 hx
  exact ⟨k, hk, x, hmem, path⟩

/-- A set of names that is closed under interface edges holds what can
be reached from its members. -/
theorem mem_of_interfacePath {S : String → Prop}
    (closed : ∀ x y, S x → w.InterfaceEdge x y → S y) {x t : String} (hx : S x)
    (path : ReflTransGen w.InterfaceEdge x t) : S t := by
  induction path with
  | refl => exact hx
  | tail _ edge ih => exact closed _ _ ih edge

/-- Both names stand for something, neither for an enumeration, and an
interface never inherits from a class. -/
theorem Inherits.kinds {s t : String} (h : w.Inherits s t) :
    ∃ subDef supDef, w.resolve s = some subDef ∧ w.resolve t = some supDef ∧
      subDef.kind ≠ .enumKind ∧ supDef.kind ≠ .enumKind ∧
      ¬ (subDef.kind = .interfaceKind ∧ supDef.kind = .classKind) := by
  cases h with
  | subclass hs ht => exact ⟨_, _, hs, ht, nofun, nofun, nofun⟩
  | subinterface hs ht => exact ⟨_, _, hs, ht, nofun, nofun, nofun⟩
  | implementation hs ht => exact ⟨_, _, hs, ht, nofun, nofun, nofun⟩

/-- Between two classes only the base chain counts. -/
theorem inherits_classes_iff {s t : String} {k l : ClassDef} (hs : w.resolve s = some (.class k))
    (ht : w.resolve t = some (.class l)) :
    w.Inherits s t ↔ ∃ m, w.BaseChain k m ∧ m.base = some t := by
  constructor
  · rintro (⟨hs', -, chain, base⟩ | ⟨hs', -, -⟩ | ⟨-, ht', -, -⟩)
    · rw [hs] at hs'
      cases hs'
      exact ⟨_, chain, base⟩
    · rw [hs] at hs'
      cases hs'
    · rw [ht] at ht'
      cases ht'
  · rintro ⟨m, chain, base⟩
    exact .subclass hs ht chain base

/-- Between two interfaces only the lists count. -/
theorem inherits_interfaces_iff {s t : String} {i j : InterfaceDef}
    (hs : w.resolve s = some (.interface i)) (ht : w.resolve t = some (.interface j)) :
    w.Inherits s t ↔ w.Leads i.interfaces t := by
  constructor
  · rintro (⟨hs', -, -, -⟩ | ⟨hs', -, leads⟩ | ⟨hs', -, -, -⟩)
    · rw [hs] at hs'
      cases hs'
    · rw [hs] at hs'
      cases hs'
      exact leads
    · rw [hs] at hs'
      cases hs'
  · exact fun leads => .subinterface hs ht leads

/-- Between a class and an interface the lists along the base chain
count. -/
theorem inherits_implementation_iff {s t : String} {k : ClassDef} {j : InterfaceDef}
    (hs : w.resolve s = some (.class k)) (ht : w.resolve t = some (.interface j)) :
    w.Inherits s t ↔ ∃ m, w.BaseChain k m ∧ w.Leads m.interfaces t := by
  constructor
  · rintro (⟨-, ht', -, -⟩ | ⟨hs', -, -⟩ | ⟨hs', -, chain, leads⟩)
    · rw [ht] at ht'
      cases ht'
    · rw [hs] at hs'
      cases hs'
    · rw [hs] at hs'
      cases hs'
      exact ⟨_, chain, leads⟩
  · rintro ⟨m, chain, leads⟩
    exact .implementation hs ht chain leads

/-- Inheritance is transitive. A class that stands in the middle hands
on its chain, an interface in the middle hands on its list. -/
theorem Inherits.trans {s t u : String} (hst : w.Inherits s t) (htu : w.Inherits t u) :
    w.Inherits s u := by
  cases hst with
  | subclass hs ht chain base =>
    cases htu with
    | subclass ht' hu chain' base' =>
      rw [ht] at ht'
      cases ht'
      exact .subclass hs hu (chain.trans (.head ⟨t, base, ht⟩ chain')) base'
    | subinterface ht' => rw [ht] at ht'; cases ht'
    | implementation ht' hu chain' leads' =>
      rw [ht] at ht'
      cases ht'
      exact .implementation hs hu (chain.trans (.head ⟨t, base, ht⟩ chain')) leads'
  | subinterface hs ht leads =>
    cases htu with
    | subclass ht' => rw [ht] at ht'; cases ht'
    | subinterface ht' hu leads' =>
      rw [ht] at ht'
      cases ht'
      exact .subinterface hs hu (leads.trans ht leads')
    | implementation ht' => rw [ht] at ht'; cases ht'
  | implementation hs ht chain leads =>
    cases htu with
    | subclass ht' => rw [ht] at ht'; cases ht'
    | subinterface ht' hu leads' =>
      rw [ht] at ht'
      cases ht'
      exact .implementation hs hu chain (leads.trans ht leads')
    | implementation ht' => rw [ht] at ht'; cases ht'

/-- A chain of base classes is a path of base edges between the names
under which they are found, up to the base that its last class
names. -/
theorem baseEdges_of_chain {s t : String} {k m : ClassDef} (hs : w.resolve s = some (.class k))
    (chain : w.BaseChain k m) (base : m.base = some t) : TransGen w.BaseEdge s t := by
  induction chain using ReflTransGen.head_induction_on generalizing s with
  | refl => exact .single ⟨m, hs, base⟩
  | head step _ ih =>
    obtain ⟨b, hb, hparent⟩ := step
    exact .head ⟨_, hs, hb⟩ (ih hparent)

/-- What an interface lists or can reach is above the name of the
interface. -/
theorem interfaceEdges_of_leads {s t : String} {i : InterfaceDef}
    (hs : w.resolve s = some (.interface i)) (leads : w.Leads i.interfaces t) :
    TransGen w.InterfaceEdge s t := by
  obtain ⟨x, hx, path⟩ := leads
  exact .head' ⟨i, hs, hx⟩ path

/-- Without cycles, no two names inherit from each other. -/
theorem Inherits.asymm (hacyclic : w.Acyclic) {s t : String} (hst : w.Inherits s t) :
    ¬ w.Inherits t s := by
  intro hts
  cases hst with
  | subclass hs ht chain base =>
    obtain ⟨m, chain', base'⟩ := (inherits_classes_iff ht hs).1 hts
    exact hacyclic.bases s ((baseEdges_of_chain hs chain base).trans
      (baseEdges_of_chain ht chain' base'))
  | subinterface hs ht leads =>
    have leads' := (inherits_interfaces_iff ht hs).1 hts
    exact hacyclic.interfaces s ((interfaceEdges_of_leads hs leads).trans
      (interfaceEdges_of_leads ht leads'))
  | implementation hs ht =>
    -- An interface never inherits from a class.
    obtain ⟨subDef, supDef, hsub, hsup, -, -, hkinds⟩ := hts.kinds
    rw [ht] at hsub
    rw [hs] at hsup
    cases hsub
    cases hsup
    exact hkinds ⟨rfl, rfl⟩

/-- Assemblies whose names can be ranked such that every definition
names only what ranks below the name it is stored under make a world
without cycles. -/
theorem acyclic_of {a : Assembly} {deps : Dependencies} (rank : String → Nat)
    (h : ∀ b ∈ a :: deps, ∀ entry ∈ b.types, ∀ y ∈ entry.2.base?.toList ++ entry.2.interfaces,
      rank y < rank entry.1) : (of a deps).Acyclic := by
  have descends {r : String → String → Prop} (hr : ∀ x y, r x y → rank y < rank x) (x : String) :
      ¬ TransGen r x x := by
    intro path
    have hlt : TransGen (· > ·) (rank x) (rank x) := path.lift rank hr
    rw [Relation.transGen_eq_self] at hlt
    exact Nat.lt_irrefl _ hlt
  refine ⟨descends ?_, descends ?_⟩
  · rintro x y ⟨c, hx, hy⟩
    obtain ⟨b, hb, hentry⟩ := exists_entry_of_resolve hx
    exact h b hb _ hentry y (by simp [TypeDef.base?, hy])
  · rintro x y ⟨i, hx, hy⟩
    obtain ⟨b, hb, hentry⟩ := exists_entry_of_resolve hx
    exact h b hb _ hentry y (by simp [TypeDef.interfaces, hy])

end World

end OverrideCheck
