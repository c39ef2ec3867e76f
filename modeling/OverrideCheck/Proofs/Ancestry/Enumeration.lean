import Mathlib.Data.List.Nodup
import OverrideCheck.Proofs.Ancestry.Exploration
import OverrideCheck.Proofs.Inheritance

/-!
# `OverrideCheck.Proofs.Ancestry.Enumeration`: what the ancestor walk writes down

The walk writes as it goes: the names it has met, the interfaces they
stand for, and the names it could not follow. This module says what is
written, for every walk, complete or not, and for every world.

* Nothing that was written is lost (`Walk.Grows`).
* The interfaces are written one for each name: they are what a list of
  distinct names stands for, in the same order. These are the names
  which were met by this walk and stand for an interface, and each of
  them can be reached from the names that the walk started with
  (`Walk.Enumerates`). Two names may stand for the same interface, and
  then it is written twice.
* A name that is written down as standing for nothing does so
  (`Exploration.resolve_of_mem_unresolved`).

Whether the walk meets every name that it could is another question,
and its answer is in `Proofs/Ancestry/Coverage.lean`.
-/

set_option autoImplicit false

namespace OverrideCheck

namespace Ancestors

variable {w : World}

theorem isComplete_iff {a : Ancestors} :
    a.isComplete = true ↔ a.unresolved = [] ∧ a.cycles = [] ∧ a.limitExceeded = [] := by
  simp [isComplete, and_assoc]

namespace Walk

/-- The walk has gone on: what was met and found is kept, and so is
every record of something that could not be followed. -/
structure Grows (s s' : Walk) : Prop where
  seen : s.seen ⊆ s'.seen
  interfaces : s.found.interfaces ⊆ s'.found.interfaces
  bases : s'.found.bases = s.found.bases
  unresolved : s.found.unresolved ⊆ s'.found.unresolved
  cycles : s.found.cycles ⊆ s'.found.cycles
  limitExceeded : s.found.limitExceeded ⊆ s'.found.limitExceeded

namespace Grows

theorem trans {a b c : Walk} (h : Grows a b) (k : Grows b c) : Grows a c where
  seen := List.Subset.trans h.seen k.seen
  interfaces := List.Subset.trans h.interfaces k.interfaces
  bases := k.bases.trans h.bases
  unresolved := List.Subset.trans h.unresolved k.unresolved
  cycles := List.Subset.trans h.cycles k.cycles
  limitExceeded := List.Subset.trans h.limitExceeded k.limitExceeded

/-- If no limit was written down in the end, none was before. -/
theorem limitExceeded_eq_nil {s s' : Walk} (h : Grows s s') (hs' : s'.found.limitExceeded = []) :
    s.found.limitExceeded = [] :=
  List.subset_nil.1 (hs' ▸ h.limitExceeded)

/-- If nothing was written down in the end that could not be followed,
nothing was before. -/
theorem complete {s s' : Walk} (h : Grows s s') (hs' : s'.found.isComplete = true) :
    s.found.isComplete = true := by
  obtain ⟨hunresolved, hcycles, hlimit⟩ := isComplete_iff.1 hs'
  exact isComplete_iff.2 ⟨List.subset_nil.1 (hunresolved ▸ h.unresolved),
    List.subset_nil.1 (hcycles ▸ h.cycles), h.limitExceeded_eq_nil hlimit⟩

end Grows

/-- The guard does not matter. -/
theorem grows_guard (s : Walk) (guard : Guard) : Grows s { s with guard } := by
  constructor <;> simp

theorem grows_addCycle (s : Walk) (name : String) : Grows s (s.addCycle name) := by
  constructor <;> simp [addCycle]

theorem grows_addUnresolved (s : Walk) (name : String) : Grows s (s.addUnresolved name) := by
  constructor <;> simp [addUnresolved]

theorem grows_addLimit (s : Walk) (name : String) : Grows s (s.addLimit name) := by
  constructor <;> simp [addLimit]

theorem grows_mark (s : Walk) (name : String) : Grows s (s.mark name) := by
  constructor <;> simp [mark]

theorem grows_visit (s : Walk) (name : String) (i : InterfaceDef) (guard : Guard) :
    Grows s (s.visit name i guard) := by
  constructor <;> simp [visit, mark, addInterface]

theorem Exploration.grows {names : List String} {s s' : Walk} (h : Exploration w names s s') :
    Grows s s' := by
  induction h with
  | done => exact grows_guard _ _
  | returned _ _ ih => exact (grows_addCycle _ _).trans ih
  | met _ _ _ ih => exact ih
  | unresolved _ _ _ _ ih => exact (grows_mark _ _).trans ((grows_addUnresolved _ _).trans ih)
  | other _ _ _ _ _ ih => exact (grows_mark _ _).trans ih
  | cycle _ _ _ _ _ ih => exact (grows_visit _ _ _ _).trans ((grows_addCycle _ _).trans ih)
  | cut _ _ _ _ _ _ ih => exact (grows_visit _ _ _ _).trans ((grows_addLimit _ _).trans ih)
  | entered _ _ _ _ _ _ ihInner ihRest =>
    exact (grows_visit _ _ _ _).trans (ihInner.trans ((grows_guard _ _).trans ihRest))

/-- Between the two states, one interface was written down for each of
the new names, and these are all the names which were met and stand for
an interface. -/
structure Enumerates (w : World) (names : List String) (s s' : Walk) (new : List String) :
    Prop where
  nodup : new.Nodup
  /-- The names were met between the two states. -/
  met : ∀ x ∈ new, x ∉ s.seen ∧ x ∈ s'.seen
  listed : ∀ x ∈ new, w.Leads names x
  entries : ∃ found, s'.found.interfaces = s.found.interfaces ++ found ∧
    new.map w.resolve = found.map (some <| .interface ·)
  all : ∀ x ∈ s'.seen, x ∉ s.seen → ∀ i, w.resolve x = some (.interface i) → x ∈ new

namespace Enumerates

/-- Nothing is met, and no interface written down. -/
theorem quiet {names : List String} {s s' : Walk} (hseen : s'.seen = s.seen)
    (hfound : s'.found.interfaces = s.found.interfaces) : Enumerates w names s s' [] where
  nodup := List.nodup_nil
  met := nofun
  listed := nofun
  entries := ⟨[], by rw [hfound, List.append_nil], rfl⟩
  all x hx hxs := absurd (hseen ▸ hx) hxs

/-- A name is met that stands for no interface. -/
theorem mark {names : List String} {s s' : Walk} {name : String} (hseen : s'.seen = name :: s.seen)
    (hfound : s'.found.interfaces = s.found.interfaces)
    (hkind : ∀ i, w.resolve name ≠ some (.interface i)) : Enumerates w names s s' [] where
  nodup := List.nodup_nil
  met := nofun
  listed := nofun
  entries := ⟨[], by rw [hfound, List.append_nil], rfl⟩
  all x hx hxs i hi := by
    rw [hseen] at hx
    rcases List.mem_cons.1 hx with rfl | hx
    · exact absurd hi (hkind i)
    · exact absurd hx hxs

/-- A name is met for the first time, and its interface written
down. -/
theorem visit {names : List String} {s s' : Walk} {name : String} {i : InterfaceDef}
    (hnew : name ∉ s.seen) (hname : name ∈ names) (hsome : w.resolve name = some (.interface i))
    (hseen : s'.seen = name :: s.seen)
    (hfound : s'.found.interfaces = s.found.interfaces ++ [i]) :
    Enumerates w names s s' [name] where
  nodup := List.nodup_singleton name
  met x hx := by
    rw [List.mem_singleton.1 hx, hseen]
    exact ⟨hnew, List.mem_cons_self⟩
  listed x hx := .of_mem (List.mem_singleton.1 hx ▸ hname)
  entries := ⟨[i], hfound, congrArg ([·]) hsome⟩
  all x hx hxs j hj := by
    rw [hseen] at hx
    exact List.mem_singleton.2 ((List.mem_cons.1 hx).resolve_right hxs)

/-- What can be reached from the names can be reached from others. -/
theorem mono {names names' : List String} {s s' : Walk} {new : List String}
    (h : Enumerates w names s s' new)
    (hleads : ∀ x, w.Leads names x → w.Leads names' x) : Enumerates w names' s s' new :=
  { h with listed := fun x hx => hleads x (h.listed x hx) }

/-- One part of the walk after the other. -/
theorem trans {names : List String} {a b c : Walk} {new more : List String}
    (hab : Enumerates w names a b new) (hbc : Enumerates w names b c more)
    (gab : a.seen ⊆ b.seen) (gbc : b.seen ⊆ c.seen) : Enumerates w names a c (new ++ more) where
  nodup := by
    refine List.nodup_append.2 ⟨hab.nodup, hbc.nodup, fun x hx y hy hxy => ?_⟩
    -- The names of the second part were not yet met after the first.
    exact (hbc.met y hy).1 (hxy ▸ (hab.met x hx).2)
  met x hx := by
    rcases List.mem_append.1 hx with hx | hx
    · exact ⟨(hab.met x hx).1, gbc (hab.met x hx).2⟩
    · exact ⟨fun hxa => (hbc.met x hx).1 (gab hxa), (hbc.met x hx).2⟩
  listed x hx := by
    rcases List.mem_append.1 hx with hx | hx
    · exact hab.listed x hx
    · exact hbc.listed x hx
  entries := by
    obtain ⟨found, hfound, stands⟩ := hab.entries
    obtain ⟨found', hfound', stands'⟩ := hbc.entries
    exact ⟨found ++ found', by rw [hfound', hfound, List.append_assoc],
      by rw [List.map_append, stands, stands', List.map_append]⟩
  all x hx hxa i hi := by
    by_cases hxb : x ∈ b.seen
    · exact List.mem_append_left _ (hab.all x hxb hxa i hi)
    · exact List.mem_append_right _ (hbc.all x hx hxb i hi)

end Enumerates

/-- Every walk writes down one interface for each new name that stands
for one. -/
theorem Exploration.enumerates {names : List String} {s s' : Walk} (h : Exploration w names s s') :
    ∃ new, Enumerates w names s s' new := by
  -- What follows the first name of the list, from the state `s₁` after it.
  have follow {name : String} {names : List String} {s s₁ s' : Walk} {new : List String}
      (rest : Exploration w names s₁ s') (ih : ∃ more, Enumerates w names s₁ s' more)
      (hgrows : Grows s s₁) (first : Enumerates w (name :: names) s s₁ new) :
      ∃ new, Enumerates w (name :: names) s s' new := by
    obtain ⟨more, hmore⟩ := ih
    have hmore' := hmore.mono fun x hx => hx.mono (List.subset_cons_self name names)
    exact ⟨new ++ more, first.trans hmore' hgrows.seen rest.grows.seen⟩
  induction h with
  | done => exact ⟨[], .quiet rfl rfl⟩
  | returned _ rest ih => exact follow rest ih (grows_addCycle _ _) (.quiet rfl rfl)
  | met _ _ rest ih => exact follow rest ih (grows_guard _ _) (.quiet rfl rfl)
  | unresolved _ _ hnone rest ih =>
    refine follow rest ih ((grows_mark _ _).trans (grows_addUnresolved _ _))
      (.mark rfl rfl fun i hi => ?_)
    rw [hnone] at hi
    cases hi
  | other _ _ hsome hkind rest ih =>
    refine follow rest ih (grows_mark _ _) (.mark rfl rfl fun i hi => ?_)
    rw [hsome] at hi
    exact hkind i (Option.some.inj hi)
  | cycle _ hnew hsome _ rest ih =>
    exact follow rest ih ((grows_visit _ _ _ _).trans (grows_addCycle _ _))
      (.visit hnew List.mem_cons_self hsome rfl rfl)
  | cut _ hnew hsome _ _ rest ih =>
    exact follow rest ih ((grows_visit _ _ _ _).trans (grows_addLimit _ _))
      (.visit hnew List.mem_cons_self hsome rfl rfl)
  | @entered name names s s₁ s' i guard _ hnew hsome _ inner rest ihInner ihRest =>
    obtain ⟨above, habove⟩ := ihInner
    have first : Enumerates w (name :: names) s (s.visit name i guard) [name] :=
      .visit hnew List.mem_cons_self hsome rfl rfl
    have habove' := habove.mono fun x =>
      World.Leads.of_listed (List.mem_cons_self (l := names)) hsome
    have level := first.trans habove' (grows_visit _ _ _ _).seen inner.grows.seen
    -- Leaving the interface changes nothing but the guard.
    exact follow rest ihRest ((grows_visit _ _ _ _).trans (inner.grows.trans (grows_guard _ _)))
      { level with }

/-- A name that is written down as standing for nothing does so. -/
theorem Exploration.resolve_of_mem_unresolved {names : List String} {s s' : Walk}
    (h : Exploration w names s s') (hs : ∀ x ∈ s.found.unresolved, w.resolve x = none) :
    ∀ x ∈ s'.found.unresolved, w.resolve x = none := by
  induction h with
  | done => exact hs
  | returned _ _ ih | met _ _ _ ih | other _ _ _ _ _ ih | cycle _ _ _ _ _ ih
  | cut _ _ _ _ _ _ ih => exact ih hs
  | unresolved _ _ hnone _ ih =>
    refine ih fun x hx => ?_
    rcases List.mem_append.1 hx with hx | hx
    · exact hs x hx
    · rw [List.mem_singleton.1 hx]
      exact hnone
  | entered _ _ _ _ _ _ ihInner ihRest => exact ihRest (ihInner hs)

end Walk

end Ancestors

end OverrideCheck
