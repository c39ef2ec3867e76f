import OverrideCheck.Proofs.Ancestry.Enumeration
import OverrideCheck.Proofs.Lineage

/-!
# `OverrideCheck.Proofs.Ancestry.Coverage`: a complete walk has seen everything

`Ancestors.collect` marks a name as met before it asks the guard, so a
name that the guard refuses is passed over for the rest of the walk,
also on a shorter way. Such a loss is always recorded. This module
shows that there is no other loss.

`Walk.Covers` says what one list of names leaves behind if nothing was
lost: its names have all been met, and so has what the interfaces met
on the way list. A walk that recorded nothing covers its names, and
they are off the path, because that is where a name on the path would
have been recorded (`Exploration.covers`). From this the names met are
closed under interface edges, and what can be reached was met
(`Exploration.met_of_leads`).

Whatever the kind of a definition, its ancestors come from one such
walk, through what the definition and its base classes list
(`Ancestors.Walked`). With what `Proofs/Ancestry/Enumeration.lean` says
of the interfaces that are written down, a complete walk has found
exactly what there is (`collect_misses_nothing`). No assumption on the
names of the definitions is made.

`mem_interfaces_iff` and `baseDeclaring?_iff` are what the audit needs.
-/

set_option autoImplicit false

namespace OverrideCheck

open Relation (ReflTransGen TransGen)

/-- The name can be reached over interface edges from the interfaces
that a definition lists, or that a class on its base chain lists. -/
def World.ListedAbove (w : World) : TypeDef → String → Prop
  | .class c, name => ∃ m, w.BaseChain c m ∧ w.Leads m.interfaces name
  | .interface i, name => w.Leads i.interfaces name
  | .enum _, _ => False

namespace Ancestors

variable {w : World}

namespace Walk

@[simp]
theorem isComplete_addCycle (s : Walk) (name : String) :
    (s.addCycle name).found.isComplete = false := by
  simp [isComplete, addCycle]

@[simp]
theorem isComplete_addUnresolved (s : Walk) (name : String) :
    (s.addUnresolved name).found.isComplete = false := by
  simp [isComplete, addUnresolved]

@[simp]
theorem isComplete_addLimit (s : Walk) (name : String) :
    (s.addLimit name).found.isComplete = false := by
  simp [isComplete, addLimit]

/-- What a walk through the names leaves behind if nothing was lost:
its names have all been met, and so has everything that is listed by an
interface met on the way. All these names have the property. -/
structure Covers (w : World) (P : String → Prop) (names : List String) (s s' : Walk) : Prop where
  names : ∀ x ∈ names, x ∈ s'.seen ∧ P x
  closed : ∀ x ∈ s'.seen, x ∉ s.seen → ∀ i, w.resolve x = some (.interface i) →
    ∀ y ∈ i.interfaces, y ∈ s'.seen ∧ P y

namespace Covers

theorem imp {P Q : String → Prop} {names : List String} {s s' : Walk} (h : Covers w P names s s')
    (hPQ : ∀ x, P x → Q x) : Covers w Q names s s' where
  names x hx := (h.names x hx).imp_right (hPQ x)
  closed x hx hxs i hi y hy := (h.closed x hx hxs i hi y hy).imp_right (hPQ y)

/-- The walk goes on with the rest of the list from a state `s₁` in
which the first name has been dealt with: what was met until then is
covered there. -/
theorem cons {P : String → Prop} {name : String} {names : List String} {s s₁ s' : Walk}
    (rest : Covers w P names s₁ s') (hgrows : Grows s₁ s') (hname : name ∈ s'.seen ∧ P name)
    (hnew : ∀ x ∈ s₁.seen, x ∉ s.seen → ∀ i, w.resolve x = some (.interface i) →
      ∀ y ∈ i.interfaces, y ∈ s₁.seen ∧ P y) :
    Covers w P (name :: names) s s' where
  names x hx := by
    rcases List.mem_cons.1 hx with rfl | hx
    · exact hname
    · exact rest.names x hx
  closed x hx hxs i hi y hy := by
    by_cases hx₁ : x ∈ s₁.seen
    · exact (hnew x hx₁ hxs i hi y hy).imp_left fun h => hgrows.seen h
    · exact rest.closed x hx hx₁ i hi y hy

/-- The first name stands for no interface, or was met before. -/
theorem cons_quiet {P : String → Prop} {name : String} {names : List String} {s s₁ s' : Walk}
    (rest : Covers w P names s₁ s') (hgrows : Grows s₁ s') (hname : name ∈ s'.seen ∧ P name)
    (hseen : ∀ x ∈ s₁.seen, x ∉ s.seen → ∀ i, w.resolve x ≠ some (.interface i)) :
    Covers w P (name :: names) s s' :=
  rest.cons hgrows hname fun x hx hxs i hi => absurd hi (hseen x hx hxs i)

/-- The first name stands for an interface, and what that lists was
covered before the rest. -/
theorem cons_entered {P : String → Prop} {name : String} {names : List String} {s s₁ s' : Walk}
    {i : InterfaceDef} {guard guard' : Guard}
    (rest : Covers w P names { s₁ with guard := guard' } s')
    (inner : Covers w P i.interfaces (s.visit name i guard) s₁)
    (hsome : w.resolve name = some (.interface i)) (hgrows : Grows { s₁ with guard := guard' } s')
    (hname : name ∈ s'.seen ∧ P name) :
    Covers w P (name :: names) s s' := by
  refine rest.cons hgrows hname fun x hx hxs j hj => ?_
  -- What is new since `s` is the name itself, or was met above its interface.
  by_cases hxname : x = name
  · rw [hxname, hsome] at hj
    cases hj
    exact inner.names
  · have hxv : x ∉ (s.visit name i guard).seen := by
      intro hmem
      rcases List.mem_cons.1 hmem with h | h
      · exact hxname h
      · exact hxs h
    exact inner.closed x hx hxv j hj

end Covers

/-- A walk that recorded nothing covers its names, and none of them was
on the path where it started. -/
theorem Exploration.covers {names : List String} {s s' : Walk} (h : Exploration w names s s')
    (hcomplete : s'.found.isComplete = true) : Covers w (· ∉ s.guard.path) names s s' := by
  induction h with
  | done => exact ⟨nofun, fun x hx hxs => absurd hx hxs⟩
  | returned _ rest | unresolved _ _ _ rest | cycle _ _ _ _ rest | cut _ _ _ _ _ rest =>
    -- These four have left a record.
    have := rest.grows.complete hcomplete
    simp at this
  | met hpath hseen rest ih =>
    exact (ih hcomplete).cons_quiet rest.grows ⟨rest.grows.seen hseen, hpath⟩
      fun x hx hxs => absurd hx hxs
  | other hpath hnew hsome hkind rest ih =>
    refine (ih hcomplete).cons_quiet rest.grows ⟨rest.grows.seen List.mem_cons_self, hpath⟩
      fun x hx hxs i hi => ?_
    rw [(List.mem_cons.1 hx).resolve_right hxs, hsome] at hi
    exact hkind i (Option.some.inj hi)
  | @entered name names s s₁ s' j guard hpath hnew hsome henter inner rest ihInner ihRest =>
    have inside := ihInner (rest.grows.complete hcomplete)
    -- The path inside the interface is one longer than outside.
    have outside : Covers w (· ∉ s.guard.path) j.interfaces (s.visit name j guard) s₁ := by
      refine inside.imp fun x hx hmem => hx ?_
      show x ∈ guard.path
      rw [(Guard.enter_entered henter).2.1]
      exact List.mem_cons_of_mem _ hmem
    exact (ihRest hcomplete).cons_entered outside hsome rest.grows
      ⟨rest.grows.seen (inner.grows.seen List.mem_cons_self), hpath⟩

/-- From a start at which only names of the path have been met, a walk
that recorded nothing meets every name that can be reached, and none of
them for the second time. -/
theorem Exploration.met_of_leads {names : List String} {s s' : Walk}
    (h : Exploration w names s s') (hcomplete : s'.found.isComplete = true)
    (hstart : s.seen ⊆ s.guard.path) {x : String} (hleads : w.Leads names x) :
    x ∈ s'.seen ∧ x ∉ s.seen := by
  have covers := h.covers hcomplete
  have closed : ∀ x y, (x ∈ s'.seen ∧ x ∉ s.guard.path) → w.InterfaceEdge x y →
      y ∈ s'.seen ∧ y ∉ s.guard.path := by
    rintro x y ⟨hx, hoff⟩ ⟨j, hj, hy⟩
    exact covers.closed x hx (fun hmem => hoff (hstart hmem)) j hj y hy
  obtain ⟨z, hz, path⟩ := hleads
  obtain ⟨hx, hoff⟩ := World.mem_of_interfacePath closed (covers.names z hz) path
  exact ⟨hx, fun hmem => hoff (hstart hmem)⟩

/-- How the lineage ended is written down, unless it came to an end. -/
theorem isComplete_of_addEnding {s : Walk} {e : ChainEnd}
    (h : (s.addEnding e).found.isComplete = true) :
    s.found.isComplete = true ∧ (∀ name, e ≠ .unresolved name) ∧ ∀ name, e ≠ .cycle name := by
  cases e with
  | root | nonClass => exact ⟨h, nofun, nofun⟩
  | unresolved name | cycle name => simp [addEnding] at h

@[simp]
theorem addEnding_bases (s : Walk) (e : ChainEnd) :
    (s.addEnding e).found.bases = s.found.bases := by
  cases e <;> rfl

@[simp]
theorem addEnding_interfaces (s : Walk) (e : ChainEnd) :
    (s.addEnding e).found.interfaces = s.found.interfaces := by
  cases e <;> rfl

@[simp]
theorem addEnding_limitExceeded (s : Walk) (e : ChainEnd) :
    (s.addEnding e).found.limitExceeded = s.found.limitExceeded := by
  cases e <;> rfl

theorem mem_unresolved_addEnding {s : Walk} {e : ChainEnd} {x : String}
    (hx : x ∈ (s.addEnding e).found.unresolved) :
    x ∈ s.found.unresolved ∨ e = .unresolved x := by
  cases e with
  | root | nonClass | cycle => exact .inl hx
  | unresolved name =>
    rcases List.mem_append.1 hx with hx | hx
    · exact .inl hx
    · exact .inr (by rw [List.mem_singleton.1 hx])

end Walk

open Walk (Exploration Enumerates)

/-- The base classes are those of the lineage. -/
theorem bases_collect (w : World) (c : ClassDef) :
    (collect w (.class c)).bases = (w.lineage c).bases := by
  have h := collection_of_collect w (.class c)
  generalize collect w (.class c) = a at h
  cases h with
  | ofClass h => rw [Walk.addEnding_bases, h.grows.bases]

/-- Only a class has base classes. -/
theorem exists_class_of_mem_bases {d : TypeDef} {b : ClassDef} (h : b ∈ (collect w d).bases) :
    ∃ c, d = .class c := by
  have hd := collection_of_collect w d
  generalize collect w d = a at h hd
  cases hd with
  | ofClass => exact ⟨_, rfl⟩
  | ofInterface _ hwalk =>
    rw [hwalk.grows.bases] at h
    cases h
  | ofEnum => cases h

theorem bases_eq_nil (w : World) {d : TypeDef} (hnot : ∀ c, d ≠ .class c) :
    (collect w d).bases = [] := by
  refine List.eq_nil_iff_forall_not_mem.2 fun b hb => ?_
  obtain ⟨c, hc⟩ := exists_class_of_mem_bases hb
  exact hnot c hc

/-- What a definition lists, and what its base classes list. -/
def sources (w : World) (d : TypeDef) : List String :=
  d.interfaces ++ (collect w d).bases.flatMap (·.interfaces)

/-- The ancestors of a definition come from one walk through its
sources, whatever the kind of the definition. It starts with nothing
found, and only an interface counts as met from the start: then its
name is also what the path holds. -/
structure Walked (w : World) (d : TypeDef) (s s' : Walk) (e : ChainEnd) : Prop where
  walk : Exploration w (sources w d) s s'
  result : collect w d = (s'.addEnding e).found
  start : s.found = { bases := (collect w d).bases }
  seen : ∀ x ∈ s.seen, x = d.fqn
  path : s.guard.path = s.seen
  /-- A base that stopped the chain as unresolved stands for nothing. -/
  ending : ∀ name, e = .unresolved name → w.resolve name = none

theorem exists_walked (w : World) (d : TypeDef) : ∃ s s' e, Walked w d s s' e := by
  have hd := collection_of_collect w d
  generalize hresult : collect w d = a at hd
  cases hd with
  | @ofClass c s hwalk =>
    refine ⟨{ found.bases := (w.lineage c).bases }, s, (w.lineage c).ending, ?_, hresult, ?_,
      fun x hx => absurd hx List.not_mem_nil, rfl, ?_⟩
    · rw [sources, bases_collect]
      exact hwalk
    · rw [bases_collect]
    · exact World.resolve_of_ending_unresolved [c.fqn] c
  | @ofInterface i guard s hpath hwalk =>
    have hbases := bases_eq_nil w (d := .interface i) nofun
    refine ⟨{ guard, seen := [i.fqn] }, s, .root, ?_, hresult, ?_, ?_, hpath, nofun⟩
    · rw [sources, hbases, List.flatMap_nil, List.append_nil]
      exact hwalk
    · rw [hbases]
    · exact fun x hx => List.mem_singleton.1 hx
  | @ofEnum k =>
    have hbases := bases_eq_nil w (d := .enum k) nofun
    refine ⟨{}, {}, .root, ?_, hresult, ?_, fun x hx => absurd hx List.not_mem_nil, rfl, nofun⟩
    · rw [sources, hbases]
      exact .done
    · rw [hbases]

/-- The interfaces of the ancestors, one for each of a list of
names. -/
theorem Walked.enumerates {d : TypeDef} {s s' : Walk} {e : ChainEnd} (h : Walked w d s s' e) :
    ∃ names, Enumerates w (sources w d) s s' names ∧
      names.map w.resolve = (collect w d).interfaces.map (some <| .interface ·) := by
  obtain ⟨names, hnames⟩ := h.walk.enumerates
  obtain ⟨found, hfound, stands⟩ := hnames.entries
  refine ⟨names, hnames, ?_⟩
  rw [h.result, Walk.addEnding_interfaces, hfound, h.start]
  exact stands

/-- Every interface that is found is what a name above the definition
stands for. -/
theorem exists_leads_of_mem_interfaces {d : TypeDef} {i : InterfaceDef}
    (hi : i ∈ (collect w d).interfaces) :
    ∃ x, w.Leads (sources w d) x ∧ w.resolve x = some (.interface i) := by
  obtain ⟨s, s', e, h⟩ := exists_walked w d
  obtain ⟨names, hnames, stands⟩ := h.enumerates
  have hmem : some (.interface i) ∈ names.map w.resolve := by
    rw [stands]
    exact List.mem_map_of_mem hi
  obtain ⟨x, hx, hxi⟩ := List.mem_map.1 hmem
  exact ⟨x, hnames.listed x hx, hxi⟩

/-- An interface is found if its name was met on the way. -/
theorem Walked.mem_interfaces {d : TypeDef} {s s' : Walk} {e : ChainEnd} (h : Walked w d s s' e)
    {x : String} {i : InterfaceDef} (hx : x ∈ s'.seen) (hnew : x ∉ s.seen)
    (hi : w.resolve x = some (.interface i)) : i ∈ (collect w d).interfaces := by
  obtain ⟨names, hnames, stands⟩ := h.enumerates
  have hmem : w.resolve x ∈ (collect w d).interfaces.map (some <| TypeDef.interface ·) := by
    rw [← stands]
    exact List.mem_map_of_mem (hnames.all x hx hnew i hi)
  obtain ⟨j, hj, hji⟩ := List.mem_map.1 hmem
  rw [hi] at hji
  cases hji
  exact hj

/-- What the sources lead to lies above the definition. -/
theorem listedAbove_of_leads {d : TypeDef} {x : String} (h : w.Leads (sources w d) x) :
    w.ListedAbove d x := by
  obtain ⟨y, hy, path⟩ := h
  rcases List.mem_append.1 hy with hy | hy
  · cases d with
    | «class» c => exact ⟨c, .refl, y, hy, path⟩
    | interface i => exact ⟨y, hy, path⟩
    | enum e => cases hy
  · obtain ⟨b, hb, hyb⟩ := List.mem_flatMap.1 hy
    obtain ⟨c, rfl⟩ := exists_class_of_mem_bases hb
    rw [bases_collect] at hb
    exact ⟨b, (World.transGen_of_mem_lineage hb).to_reflTransGen, y, hyb, path⟩

/-- If the lineage of a class holds the whole chain, its sources lead
to all that lies above the class. -/
theorem leads_of_listedAbove {d : TypeDef} {x : String}
    (hchain : ∀ c m, d = .class c → w.BaseChain c m → m ∈ c :: (w.lineage c).bases)
    (h : w.ListedAbove d x) : w.Leads (sources w d) x := by
  cases d with
  | «class» c =>
    obtain ⟨m, chain, hleads⟩ := h
    refine hleads.mono fun y hy => ?_
    rw [sources, bases_collect]
    exact List.mem_flatMap.2 ⟨m, hchain c m rfl chain, hy⟩
  | interface i => exact h.mono (List.subset_append_left _ _)
  | enum e => exact h.elim

/-- The walk from a class that is complete knows how the lineage
ended. -/
theorem ending_of_isComplete {c : ClassDef} (h : (collect w (.class c)).isComplete = true) :
    (∀ name, (w.lineage c).ending ≠ .unresolved name) ∧
      ∀ name, (w.lineage c).ending ≠ .cycle name := by
  have hc := collection_of_collect w (.class c)
  generalize collect w (.class c) = a at h hc
  cases hc with
  | ofClass _ => exact (Walk.isComplete_of_addEnding h).2

/-- The bases of a complete walk are all there are. -/
theorem bases_iff_of_isComplete {d : TypeDef} (h : (collect w d).isComplete = true)
    {classes : List ClassDef} : w.Bases d classes ↔ classes = (collect w d).bases := by
  by_cases hclass : ∃ c, d = .class c
  · obtain ⟨c, rfl⟩ := hclass
    obtain ⟨hunresolved, hcycle⟩ := ending_of_isComplete h
    rw [bases_collect]
    exact World.bases_iff_eq_lineage hunresolved hcycle
  · -- Only a class has a base, and only a class has base classes.
    have hnot : ∀ c, d ≠ .class c := fun c hc => hclass ⟨c, hc⟩
    have hroot : d.base? = none := by
      cases d with
      | «class» c => exact absurd rfl (hnot c)
      | interface i => rfl
      | enum e => rfl
    rw [bases_eq_nil w hnot]
    constructor
    · exact fun h => h.unique (.root hroot)
    · rintro rfl
      exact .root hroot

/-- A complete walk meets every name above the definition, and none of
them was met from the start. -/
theorem Walked.met_of_leads {d : TypeDef} {s s' : Walk} {e : ChainEnd} (h : Walked w d s s' e)
    (hcomplete : (collect w d).isComplete = true) {x : String} (hleads : w.Leads (sources w d) x) :
    x ∈ s'.seen ∧ x ∉ s.seen := by
  rw [h.result] at hcomplete
  exact h.walk.met_of_leads (Walk.isComplete_of_addEnding hcomplete).1
    (h.path ▸ List.Subset.refl _) hleads

/-- A complete walk collects exactly the interfaces that names above
the definition stand for. -/
theorem mem_interfaces_iff {d : TypeDef} (hcomplete : (collect w d).isComplete = true)
    {i : InterfaceDef} :
    i ∈ (collect w d).interfaces ↔
      ∃ name, w.ListedAbove d name ∧ w.resolve name = some (.interface i) := by
  constructor
  · intro hi
    obtain ⟨x, hleads, hxi⟩ := exists_leads_of_mem_interfaces hi
    exact ⟨x, listedAbove_of_leads hleads, hxi⟩
  · rintro ⟨x, habove, hxi⟩
    have hleads : w.Leads (sources w d) x := by
      refine leads_of_listedAbove ?_ habove
      rintro c m rfl chain
      exact World.mem_lineage_of_ending (ending_of_isComplete hcomplete).2 chain
    obtain ⟨s, s', e, h⟩ := exists_walked w d
    obtain ⟨hx, hnew⟩ := h.met_of_leads hcomplete hleads
    exact h.mem_interfaces hx hnew hxi

/-- A complete walk from a class finds the nearest base class that
declares a member of the name. -/
theorem baseDeclaring?_iff {c b : ClassDef} {name : String}
    (h : (collect w (.class c)).isComplete = true) :
    (collect w (.class c)).baseDeclaring? name = some b ↔
      w.NearestBase (fun k => (k.member? name).isSome = true) c b := by
  unfold baseDeclaring?
  rw [bases_collect]
  exact World.find?_lineage_iff (ending_of_isComplete h).2

/-- A name that the ancestors leave unresolved stands for nothing. -/
theorem resolve_of_mem_unresolved {d : TypeDef} {x : String} (hx : x ∈ (collect w d).unresolved) :
    w.resolve x = none := by
  obtain ⟨s, s', e, h⟩ := exists_walked w d
  rw [h.result] at hx
  rcases Walk.mem_unresolved_addEnding hx with hx | hx
  · refine h.walk.resolve_of_mem_unresolved (fun y hy => ?_) x hx
    rw [h.start] at hy
    cases hy
  · exact h.ending x hx

/-- A complete walk misses nothing, in any world. Its bases are the list
of classes that is passed when bases are followed from the definition.
Its interfaces are what the names stand for that can be reached from
what the definition and these bases list, one interface for each name.
So if a base class or an interface above the definition is missing, the
walk has recorded something. And a name that it calls unresolved stands
for nothing, also if the walk is not complete. -/
theorem collect_misses_nothing (w : World) (d : TypeDef) :
    ((collect w d).isComplete = true →
      (∀ classes, w.Bases d classes ↔ classes = (collect w d).bases) ∧
      ∃ names : List String, names.Nodup ∧
        names.map w.resolve = (collect w d).interfaces.map (some <| .interface ·) ∧
        ∀ x, x ∈ names ↔ (∃ i, w.resolve x = some (.interface i)) ∧
          w.Leads (d.interfaces ++ (collect w d).bases.flatMap (·.interfaces)) x) ∧
    ((∃ c b, d = .class c ∧ TransGen w.BaseStep c b ∧ b ∉ (collect w d).bases) ∨
        (∃ x i, w.ListedAbove d x ∧ w.resolve x = some (.interface i) ∧
          i ∉ (collect w d).interfaces) →
      (collect w d).unresolved ≠ [] ∨ (collect w d).cycles ≠ [] ∨
        (collect w d).limitExceeded ≠ []) ∧
    ∀ x ∈ (collect w d).unresolved, w.resolve x = none := by
  refine ⟨fun hcomplete => ⟨fun _ => bases_iff_of_isComplete hcomplete, ?_⟩, fun hmissing => ?_,
    fun x => resolve_of_mem_unresolved⟩
  · obtain ⟨s, s', e, h⟩ := exists_walked w d
    obtain ⟨names, hnames, stands⟩ := h.enumerates
    refine ⟨names, hnames.nodup, stands, fun x => ⟨fun hx => ⟨?_, hnames.listed x hx⟩, ?_⟩⟩
    · have hmem := List.mem_map_of_mem (f := w.resolve) hx
      rw [stands] at hmem
      obtain ⟨i, -, hi⟩ := List.mem_map.1 hmem
      exact ⟨i, hi.symm⟩
    · rintro ⟨⟨i, hi⟩, hleads⟩
      obtain ⟨hx, hnew⟩ := h.met_of_leads hcomplete hleads
      exact hnames.all x hx hnew i hi
  · by_contra hnone
    push Not at hnone
    have hcomplete := isComplete_iff.2 hnone
    rcases hmissing with ⟨c, b, rfl, habove, hb⟩ | ⟨x, i, habove, hi, hnot⟩
    · rw [bases_collect] at hb
      exact hb (World.mem_bases_of_ending (ending_of_isComplete hcomplete).2 habove)
    · exact hnot ((mem_interfaces_iff hcomplete).2 ⟨x, habove, hi⟩)

/-- A class with a base and an interface. -/
def knownPuppy : ClassDef where
  fqn := "pet.Puppy"
  base := some "pet.Dog"
  interfaces := ["pet.Small"]

/-- The class, its base, and an enumeration for the base of that. The
interfaces form a diamond. The base and the lowest corner of the
diamond are stored under names that are not their own. -/
def knownPets : Assembly where
  name := "pet"
  types := [
    ("pet.Puppy", .class knownPuppy),
    ("pet.Dog", .class {
      fqn := "pet.Hound", base := some "pet.Breed", interfaces := ["pet.Right"] }),
    ("pet.Breed", .enum { fqn := "pet.Breed" }),
    ("pet.Small", .interface { fqn := "pet.Tiny", interfaces := ["pet.Left", "pet.Right"] }),
    ("pet.Left", .interface { fqn := "pet.Left", interfaces := ["pet.Top"] }),
    ("pet.Right", .interface { fqn := "pet.Right", interfaces := ["pet.Top"] }),
    ("pet.Top", .interface { fqn := "pet.Top" })]

/-- The walk from the class is complete. It has passed one base, and
written down one interface for each of the names that can be
reached. -/
theorem collect_knownPets :
    (collect (World.of knownPets []) (.class knownPuppy)).isComplete = true ∧
    (World.of knownPets []).Bases (.class knownPuppy)
      (collect (World.of knownPets []) (.class knownPuppy)).bases ∧
    ∃ names : List String, names.Nodup ∧
      names.map (World.of knownPets []).resolve =
        (collect (World.of knownPets []) (.class knownPuppy)).interfaces.map
          (some <| .interface ·) ∧
      "pet.Top" ∈ names := by
  have hcomplete : (collect (World.of knownPets []) (.class knownPuppy)).isComplete = true := by
    decide +kernel
  obtain ⟨hbases, names, hnodup, hstands, hnames⟩ :=
    (collect_misses_nothing (World.of knownPets []) (.class knownPuppy)).1 hcomplete
  refine ⟨hcomplete, (hbases _).2 rfl, names, hnodup, hstands, (hnames "pet.Top").2 ⟨⟨_, rfl⟩, ?_⟩⟩
  exact .of_listed List.mem_cons_self rfl (.of_listed List.mem_cons_self rfl
    (.of_mem List.mem_cons_self))

end Ancestors

end OverrideCheck
