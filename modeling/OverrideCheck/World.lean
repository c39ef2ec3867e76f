import OverrideCheck.Assembly

/-!
# `OverrideCheck.World`: names and what they stand for

Everything that follows inheritance sees definitions through a
`World`: a finite collection of definitions and a lookup by name that
only ever answers with one of them. Nothing more is assumed. A lookup
may answer with a definition that calls itself something else, bases
and interfaces may form cycles, and most names stand for nothing.

Finiteness is what lets a walk along a chain of base classes end: each
class on the chain is one of the world's definitions, and no class is
passed twice.
-/

set_option autoImplicit false

namespace OverrideCheck

/-- A finite collection of definitions, found by name. -/
structure World where
  /-- What a name stands for. -/
  resolve : String → Option TypeDef
  /-- All definitions that a name can stand for, perhaps more. -/
  definitions : List TypeDef
  /-- A lookup never leaves the collection. -/
  mem_of_resolve : ∀ {fqn : String} {d : TypeDef}, resolve fqn = some d → d ∈ definitions

namespace World

/-- The world in which no name stands for anything. -/
def empty : World where
  resolve _ := none
  definitions := []
  mem_of_resolve h := by simp at h

/-- What one assembly defines by itself. -/
def ofAssembly (a : Assembly) : World where
  resolve := a.resolve
  definitions := a.definitions
  mem_of_resolve {fqn d} h := by
    unfold Assembly.resolve at h
    split at h
    · exact Assembly.mem_definitions_of_get? h
    · simp at h

/-- Look a name up in an assembly and its dependencies. A name that the
assembly owns is looked up there and nowhere else; any other name is
looked up in the first dependency that is called like its owner. -/
def find? (a : Assembly) (deps : Dependencies) (fqn : String) : Option TypeDef :=
  let owner := ownerOf fqn
  if owner = a.name then a.get? fqn
  else (deps.find? owner).bind (·.get? fqn)

/-- An assembly together with its dependencies. -/
def of (a : Assembly) (deps : Dependencies) : World where
  resolve := find? a deps
  definitions := a.definitions ++ deps.flatMap Assembly.definitions
  mem_of_resolve {fqn d} h := by
    unfold find? at h
    dsimp only at h
    split at h
    · exact List.mem_append_left _ (Assembly.mem_definitions_of_get? h)
    · obtain ⟨dep, hdep, hget⟩ := Option.bind_eq_some_iff.1 h
      refine List.mem_append_right _ (List.mem_flatMap.2 ⟨dep, ?_, ?_⟩)
      · exact List.mem_of_find?_eq_some hdep
      · exact Assembly.mem_definitions_of_get? hget

/-- What a reference stands for. Only a named reference can stand for a
definition. -/
def resolveRef (w : World) (t : TypeRef) : Option TypeDef := t.named?.bind w.resolve

/-- Every definition calls itself by the name it is found under. -/
def WellKeyed (w : World) : Prop :=
  ∀ fqn d, w.resolve fqn = some d → d.fqn = fqn

/-- What is found can be found by its own name. -/
theorem WellKeyed.resolve_fqn {w : World} (hw : w.WellKeyed) {fqn : String} {d : TypeDef}
    (h : w.resolve fqn = some d) : w.resolve d.fqn = some d := by
  rw [hw fqn d h]
  exact h

/-- What is found is stored, under the name that was looked up, in the
assembly or in one of its dependencies. -/
theorem exists_entry_of_resolve {a : Assembly} {deps : Dependencies} {fqn : String} {d : TypeDef}
    (h : (of a deps).resolve fqn = some d) : ∃ b ∈ a :: deps, (fqn, d) ∈ b.types := by
  simp only [of, find?] at h
  split at h
  · exact ⟨a, List.mem_cons_self, Assembly.mem_of_lookup h⟩
  · obtain ⟨dep, hdep, hget⟩ := Option.bind_eq_some_iff.1 h
    exact ⟨dep, List.mem_cons_of_mem _ (List.mem_of_find?_eq_some hdep),
      Assembly.mem_of_lookup hget⟩

/-- Assemblies that store every definition under its own name make a
world in which definitions are found under their own names. -/
theorem wellKeyed_of {a : Assembly} {deps : Dependencies}
    (h : ∀ b ∈ a :: deps, ∀ entry ∈ b.types, entry.2.fqn = entry.1) : (of a deps).WellKeyed := by
  intro fqn d hd
  obtain ⟨b, hb, hentry⟩ := exists_entry_of_resolve hd
  exact h b hb (fqn, d) hentry

end World

end OverrideCheck
