import OverrideCheck.Definition

/-!
# `OverrideCheck.Assembly`: assemblies and their dependencies

An assembly is the public API of one module: a name, perhaps a
version, and definitions stored under keys in the order in which they
were declared. Storing under a key that is already there replaces the
definition and leaves it in its place.

A reference says which assembly it points into by its first segment
(`ownerOf`). Dependencies are looked up by name, and of several with
one name the first is the one that counts.
-/

set_option autoImplicit false

namespace OverrideCheck

/-- The name of the assembly that owns a fully qualified name: what
stands before the first dot, or all of it when there is no dot. -/
def ownerOf (fqn : String) : String :=
  String.ofList (fqn.toList.takeWhile (· ≠ '.'))

namespace Assembly

/-- The definition stored under a key. -/
def lookup (key : String) : List (String × TypeDef) → Option TypeDef
  | [] => none
  | (k, d) :: rest => if k = key then some d else lookup key rest

/-- Store a definition under a key: in the place of the definition that
was there, which is given back, or else at the end. -/
def exchange (key : String) (d : TypeDef) :
    List (String × TypeDef) → Option TypeDef × List (String × TypeDef)
  | [] => (none, [(key, d)])
  | (k, old) :: rest =>
    if k = key then (some old, (k, d) :: rest)
    else
      let (replaced, rest) := exchange key d rest
      (replaced, (k, old) :: rest)

/-- Store a definition under a key, and forget the one that was there. -/
def store (key : String) (d : TypeDef) (types : List (String × TypeDef)) :
    List (String × TypeDef) :=
  (exchange key d types).2

theorem store_nil (key : String) (d : TypeDef) : store key d [] = [(key, d)] := rfl

theorem store_cons (key : String) (d : TypeDef) (k : String) (old : TypeDef)
    (rest : List (String × TypeDef)) :
    store key d ((k, old) :: rest)
      = if k = key then (k, d) :: rest else (k, old) :: store key d rest := by
  unfold store
  rw [exchange]
  split <;> rfl

theorem map_fst_store (key : String) (d : TypeDef) :
    ∀ types : List (String × TypeDef), (store key d types).map (·.1)
      = if key ∈ types.map (·.1) then types.map (·.1) else types.map (·.1) ++ [key]
  | [] => by simp [store_nil]
  | (k, old) :: rest => by
    by_cases hk : k = key
    · simp [store_cons, hk]
    · have ih := map_fst_store key d rest
      have hk' : ¬ key = k := fun h => hk h.symm
      simp only [store_cons, hk, if_false, List.map_cons, ih, List.mem_cons, hk', false_or]
      split <;> simp

/-- Storing a definition keeps the keys distinct. -/
theorem nodup_store (key : String) (d : TypeDef) {types : List (String × TypeDef)}
    (h : (types.map (·.1)).Nodup) : ((store key d types).map (·.1)).Nodup := by
  rw [map_fst_store]
  split
  · exact h
  · next hk => exact List.nodup_append.2 ⟨h, by simp, by simpa using fun a x hx e => hk (by
      simpa using ⟨x, e ▸ hx⟩)⟩

end Assembly

/-- The public API of one module. -/
structure Assembly where
  name : String
  version : Option String := none
  /-- Definitions under their keys, in declaration order. -/
  types : List (String × TypeDef) := []
  /-- A key has one definition. -/
  nodup : (types.map (·.1)).Nodup := by simp
  deriving DecidableEq, Repr

instance : Inhabited Assembly := ⟨{ name := "" }⟩

namespace Assembly

/-- An assembly without definitions. -/
def empty (name : String) : Assembly := { name }

/-- The definition stored under the name. -/
def get? (a : Assembly) (fqn : String) : Option TypeDef := lookup fqn a.types

/-- Store a definition under the name that it gives itself, and give
back the definition in whose place it is. -/
def insert (a : Assembly) (d : TypeDef) : Option TypeDef × Assembly :=
  let stored := exchange d.fqn d a.types
  (stored.1, { a with types := stored.2, nodup := nodup_store d.fqn d a.nodup })

/-- The assembly with one more definition. -/
def withType (a : Assembly) (d : TypeDef) : Assembly := (a.insert d).2

/-- Store definitions under keys, one after the other. -/
def storeAll (entries types : List (String × TypeDef)) : List (String × TypeDef) :=
  entries.foldl (fun types (key, d) => store key d types) types

theorem nodup_storeAll {types : List (String × TypeDef)} (h : (types.map (·.1)).Nodup) :
    ∀ entries, ((storeAll entries types).map (·.1)).Nodup
  | [] => h
  | (key, d) :: rest => nodup_storeAll (nodup_store key d h) rest

/-- The assembly of definitions given one after the other. A key that
is given again takes the later definition in the earlier place. -/
def ofEntries (name : String) (version : Option String) (entries : List (String × TypeDef)) :
    Assembly where
  name := name
  version := version
  types := storeAll entries []
  nodup := nodup_storeAll (by simp) entries

/-- The keys, in declaration order. -/
def keys (a : Assembly) : List String := a.types.map (·.1)

/-- The definitions, in declaration order. -/
def definitions (a : Assembly) : List TypeDef := a.types.map (·.2)

/-- The definition of a name that the assembly owns. Keys that belong
to other assemblies are never found this way. -/
def resolve (a : Assembly) (fqn : String) : Option TypeDef :=
  if ownerOf fqn = a.name then a.get? fqn else none

theorem mem_of_lookup {key : String} {d : TypeDef} :
    ∀ {types : List (String × TypeDef)}, lookup key types = some d → (key, d) ∈ types
  | [], h => by simp [lookup] at h
  | (k, old) :: rest, h => by
    unfold lookup at h
    split at h
    · next hk =>
      cases h
      exact hk ▸ List.mem_cons_self
    · exact List.mem_cons_of_mem _ (mem_of_lookup h)

theorem mem_definitions_of_get? {a : Assembly} {fqn : String} {d : TypeDef}
    (h : a.get? fqn = some d) : d ∈ a.definitions :=
  List.mem_map.2 ⟨(fqn, d), mem_of_lookup h, rfl⟩

end Assembly

/-- The assemblies that a checked assembly may refer to, in the order
in which they were given. -/
abbrev Dependencies := List Assembly

/-- The dependency of a name: the first of several. -/
def Dependencies.find? (deps : Dependencies) (name : String) : Option Assembly :=
  List.find? (fun a => a.name = name) deps

end OverrideCheck
