import Mathlib.Data.List.TakeWhile
import OverrideCheck.World

/-!
# `OverrideCheck.Proofs.Insertion`: assemblies that are built in code

An assembly that is read from a text may store a definition under any
key. One that is built by `Assembly.insert` and `Assembly.withType` may
not: the key is the name that the definition gives itself. This module
says what such an assembly holds, by what was inserted and in which
order (`built_wellKeyed`).

What it is compared with is the list of the inserted definitions alone.
`lastOf?` picks the last one of a name out of it, and the keys are the
names in it without repetitions, each where it stands first. Whether a
name belongs to the assembly is said by `IsFirstSegment`, which cuts no
text: `ownerOf_eq_iff` ties it to the lookup.

Insertion has two laws, one for what is found afterwards
(`lookup_store`) and one for the keys (`map_fst_store`). `Holds` is the
invariant that follows from them, step by step.
-/

set_option autoImplicit false

namespace OverrideCheck

/-! ### The first segment of a name -/

/-- The name is the segment alone, or the segment, a dot and more. The
segment itself has no dot. -/
def IsFirstSegment (segment fqn : String) : Prop :=
  '.' ∉ segment.toList ∧ (fqn = segment ∨ ∃ rest, fqn = segment ++ "." ++ rest)

theorem takeWhile_ne_eq_iff (c : Char) (text front : List Char) :
    text.takeWhile (· ≠ c) = front ↔
      c ∉ front ∧ (text = front ∨ ∃ rest, text = front ++ c :: rest) := by
  constructor
  · rintro rfl
    have hsplit : text.takeWhile (· ≠ c) ++ text.dropWhile (· ≠ c) = text :=
      List.takeWhile_append_dropWhile
    refine ⟨fun hmem => by simpa using List.mem_takeWhile_imp hmem, ?_⟩
    cases hrest : text.dropWhile (· ≠ c) with
    | nil =>
      rw [hrest, List.append_nil] at hsplit
      exact .inl hsplit.symm
    | cons x rest =>
      -- What comes behind starts with the character that was looked for.
      have hx := List.head_dropWhile_not (· ≠ c) (l := text) (by rw [hrest]; simp)
      simp only [hrest, List.head_cons, decide_eq_false_iff_not, ne_eq, not_not] at hx
      rw [hrest, hx] at hsplit
      exact .inr ⟨rest, hsplit.symm⟩
  · rintro ⟨hfront, hcases⟩
    have hall : ∀ x ∈ front, decide (x ≠ c) = true := fun x hx =>
      decide_eq_true fun heq => hfront (heq ▸ hx)
    rcases hcases with rfl | ⟨rest, rfl⟩
    · exact List.takeWhile_eq_self_iff.2 hall
    · rw [List.takeWhile_append_of_pos hall]
      simp

/-- The owner of a name is its first segment. -/
theorem ownerOf_eq_iff (fqn segment : String) :
    ownerOf fqn = segment ↔ IsFirstSegment segment fqn := by
  rw [ownerOf, IsFirstSegment, ← String.toList_inj, String.toList_ofList, takeWhile_ne_eq_iff]
  have hdot : ".".toList = ['.'] := rfl
  refine and_congr_right fun _ => or_congr String.toList_inj ⟨?_, ?_⟩
  · rintro ⟨rest, hrest⟩
    refine ⟨String.ofList rest, String.toList_inj.1 ?_⟩
    simp [hrest, hdot]
  · rintro ⟨rest, rfl⟩
    exact ⟨rest.toList, by simp [hdot]⟩

namespace Assembly

/-! ### The laws of insertion -/

/-- What is given back is what was found under the key. -/
theorem fst_exchange (key : String) (d : TypeDef) (types : List (String × TypeDef)) :
    (exchange key d types).1 = lookup key types := by
  induction types with
  | nil => rfl
  | cons entry types ih =>
    rw [exchange, lookup]
    split
    · rfl
    · exact ih

theorem lookup_store (key : String) (d : TypeDef) (k : String) (types : List (String × TypeDef)) :
    lookup k (store key d types) = if key = k then some d else lookup k types := by
  induction types with
  | nil => rfl
  | cons entry types ih =>
    rw [store_cons, lookup]
    by_cases hkey : entry.1 = key
    · rw [if_pos hkey, lookup, hkey]
      split <;> rfl
    · rw [if_neg hkey, lookup]
      by_cases hk : entry.1 = k
      · rw [if_pos hk, if_pos hk, if_neg fun heq => hkey (hk.trans heq.symm)]
      · rw [if_neg hk, if_neg hk, ih]

theorem fst_insert (a : Assembly) (d : TypeDef) : (a.insert d).1 = a.get? d.fqn :=
  fst_exchange d.fqn d a.types

theorem get?_insert (a : Assembly) (d : TypeDef) (k : String) :
    (a.insert d).2.get? k = if d.fqn = k then some d else a.get? k :=
  lookup_store d.fqn d k a.types

theorem keys_insert (a : Assembly) (d : TypeDef) :
    (a.insert d).2.keys = if d.fqn ∈ a.keys then a.keys else a.keys ++ [d.fqn] :=
  map_fst_store d.fqn d a.types

/-! ### Histories of insertions -/

/-- One way to put a definition into an assembly. -/
inductive Addition where
  | insert (d : TypeDef)
  | withType (d : TypeDef)
  deriving DecidableEq, Repr

/-- The definition that is put in. -/
def Addition.definition : Addition → TypeDef
  | insert d => d
  | withType d => d

/-- The assembly afterwards. -/
def add (a : Assembly) : Addition → Assembly
  | .insert d => (a.insert d).2
  | .withType d => a.withType d

/-- The assembly after definitions were put in one after the other. -/
def built (name : String) (additions : List Addition) : Assembly :=
  additions.foldl add (Assembly.empty name)

/-- The definitions that were put in, in this order. -/
def inserted (additions : List Addition) : List TypeDef := additions.map Addition.definition

/-- The last definition of a name. -/
def lastOf? (ds : List TypeDef) (fqn : String) : Option TypeDef :=
  ds.reverse.find? (·.fqn = fqn)

theorem lastOf?_concat (ds : List TypeDef) (new : TypeDef) (fqn : String) :
    lastOf? (ds ++ [new]) fqn = if new.fqn = fqn then some new else lastOf? ds fqn := by
  simp only [lastOf?, List.reverse_append, List.reverse_singleton, List.singleton_append,
    List.find?_cons]
  split <;> simp_all

theorem fqn_of_lastOf? {ds : List TypeDef} {fqn : String} {d : TypeDef}
    (h : lastOf? ds fqn = some d) : d.fqn = fqn := by
  simpa using List.find?_some h

/-- A name that was inserted has a last definition. -/
theorem exists_lastOf?_iff (ds : List TypeDef) (fqn : String) :
    (∃ d, lastOf? ds fqn = some d) ↔ ∃ d ∈ ds, d.fqn = fqn := by
  rw [← Option.isSome_iff_exists, lastOf?, List.find?_isSome]
  simp

/-- A name is kept where it stands first. -/
theorem eraseDups_concat (names : List String) (name : String) :
    (names ++ [name]).eraseDups
      = if name ∈ names then names.eraseDups else names.eraseDups ++ [name] := by
  rw [List.eraseDups_append]
  split
  · next h => simp [List.removeAll, h]
  · next h => simp [List.removeAll, h, List.eraseDups_cons]

/-- The assembly holds the definitions that were inserted. -/
structure Holds (name : String) (ds : List TypeDef) (a : Assembly) : Prop where
  name_eq : a.name = name
  keys_eq : a.keys = (ds.map TypeDef.fqn).eraseDups
  get?_eq : ∀ k, a.get? k = lastOf? ds k

theorem holds_empty (name : String) : Holds name [] (Assembly.empty name) where
  name_eq := rfl
  keys_eq := rfl
  get?_eq _ := rfl

namespace Holds

variable {name : String} {ds : List TypeDef} {a : Assembly}

theorem mem_keys_iff (h : Holds name ds a) (k : String) :
    k ∈ a.keys ↔ ∃ d ∈ ds, d.fqn = k := by
  rw [h.keys_eq, List.mem_eraseDups, List.mem_map]

/-- What one insertion keeps. -/
theorem insert (h : Holds name ds a) (d : TypeDef) :
    Holds name (ds ++ [d]) (a.insert d).2 where
  name_eq := h.name_eq
  keys_eq := by
    rw [keys_insert, List.map_append, List.map_singleton, eraseDups_concat, h.keys_eq]
    simp only [List.mem_eraseDups]
  get?_eq k := by rw [get?_insert, lastOf?_concat, h.get?_eq]

theorem add (h : Holds name ds a) (addition : Addition) :
    Holds name (ds ++ [addition.definition]) (a.add addition) := by
  cases addition with
  | insert d => exact h.insert d
  | withType d => exact h.insert d

/-- What all insertions keep. -/
theorem foldl_add (additions : List Addition) :
    ∀ {ds : List TypeDef} {a : Assembly}, Holds name ds a →
      Holds name (ds ++ inserted additions) (additions.foldl Assembly.add a) := by
  induction additions with
  | nil =>
    intro ds a h
    show Holds name (ds ++ []) a
    rw [List.append_nil]
    exact h
  | cons addition additions ih =>
    intro ds a h
    have hrest := ih (h.add addition)
    rw [List.append_assoc] at hrest
    exact hrest

theorem resolve_iff (h : Holds name ds a) (fqn : String) (d : TypeDef) :
    a.resolve fqn = some d ↔ lastOf? ds fqn = some d ∧ IsFirstSegment name fqn := by
  rw [← ownerOf_eq_iff, ← h.get?_eq, resolve, h.name_eq]
  split
  · next howner => simp [howner]
  · next howner => simp [howner]

end Holds

theorem holds_built (name : String) (additions : List Addition) :
    Holds name (inserted additions) (built name additions) :=
  (holds_empty name).foldl_add additions

/-- An assembly that is built in code stores every definition under its
own name, keeps the last one of a name in the place of the first, and
resolves the names that it owns. Whoever inserts a definition is given
the one that was there. -/
theorem built_wellKeyed (name : String) (additions : List Addition) :
    (built name additions).keys.Nodup ∧
    (built name additions).keys = ((inserted additions).map TypeDef.fqn).eraseDups ∧
    (∀ k ∈ (built name additions).keys, ∃ d, (built name additions).get? k = some d ∧
      lastOf? (inserted additions) k = some d ∧ d.fqn = k) ∧
    (∀ d, ((built name additions).insert d).1 = (built name additions).get? d.fqn) ∧
    (∀ fqn d, (World.ofAssembly (built name additions)).resolve fqn = some d ↔
      lastOf? (inserted additions) fqn = some d ∧ IsFirstSegment name fqn) ∧
    (∀ fqn, (∃ d, (World.ofAssembly (built name additions)).resolve fqn = some d) ↔
      (∃ d ∈ inserted additions, d.fqn = fqn) ∧ IsFirstSegment name fqn) := by
  have h := holds_built name additions
  refine ⟨(built name additions).nodup, h.keys_eq, ?_, fst_insert _, h.resolve_iff, ?_⟩
  · intro k hk
    obtain ⟨d, hd⟩ := (exists_lastOf?_iff _ k).2 ((h.mem_keys_iff k).1 hk)
    exact ⟨d, (h.get?_eq k).trans hd, hd, fqn_of_lastOf? hd⟩
  · intro fqn
    rw [← exists_lastOf?_iff, ← exists_and_right]
    exact exists_congr (h.resolve_iff fqn)

/-- A class in the place of an interface of its name. -/
example : ((((Assembly.empty "pet").withType (.interface { fqn := "pet.Home" })).withType
      (.enum { fqn := "pet.Size" })).insert (.class { fqn := "pet.Home" })).2.types
    = [("pet.Home", .class { fqn := "pet.Home" }), ("pet.Size", .enum { fqn := "pet.Size" })] := by
  decide

end Assembly

end OverrideCheck
