import OverrideCheck.Proofs.Interchange.Shallow
import OverrideCheck.Proofs.Json.Scanning

/-!
# `OverrideCheck.Proofs.Interchange.RoundTrip`: assemblies survive being written

An assembly is written as a text and read from it again. It comes back
unchanged if the text nests within the bound, and else the text is
refused as malformed, never read as something else. Only assemblies
that were made without a text can be too deep: whatever was read from a
text can be written and read again.

Three parts meet here. The written text has the outline of the written
value (`Proofs/Json/Scanning.lean`), the outline is read as the assembly
as far as there is room (`Proofs/Interchange/Rereading.lean`), and what
was read before leaves enough room (`Proofs/Interchange/Shallow.lean`).
-/

set_option autoImplicit false

namespace OverrideCheck.Interchange

open Json

theorem numberFree_assemblyJson (a : Assembly) : (assemblyJson a).NumberFree := by
  have htypes : ∀ types : List (String × TypeDef),
      MembersNumberFree (types.map fun e => (e.1, typeDefJson e.2)) := by
    intro types
    induction types with
    | nil => trivial
    | cons e types ih => exact ⟨⟨trivial, numberFree_recordMembers e.2⟩, ih⟩
  simp [assemblyJson, NumberFree, MembersNumberFree, numberFree_optionJson _ numberFree_str,
    htypes a.types]

/-- A written value is read from its outline. -/
theorem parseAssembly_pretty {j : Json} (h : j.NumberFree) :
    parseAssembly j.pretty = assembly.decoder .top j.outline := by
  rw [parseAssembly, decode, ofText_pretty h, Document.decode]
  exact bind_pure _

theorem textNesting_renderAssembly (a : Assembly) :
    textNesting (renderAssembly a) = (assemblyJson a).nesting :=
  textNesting_pretty (numberFree_assemblyJson a)

/-- An assembly that is written is read again unchanged, with its
definitions in their order, if the text nests at most 127 containers,
and else the text is malformed. Whatever was read from any text nests no
deeper when it is written, so it can be written and read again. -/
theorem parseAssembly_renderAssembly (a : Assembly) :
    parseAssembly (renderAssembly a)
        = (if textNesting (renderAssembly a) ≤ 127 then .ok a else .error (.cut .malformed)) ∧
      ∀ text, parseAssembly text = .ok a →
        textNesting (renderAssembly a) ≤ 127 ∧ parseAssembly (renderAssembly a) = .ok a := by
  have hread : parseAssembly (renderAssembly a)
      = if textNesting (renderAssembly a) ≤ 127 then .ok a else .error (.cut .malformed) := by
    rw [textNesting_renderAssembly]
    exact (parseAssembly_pretty (numberFree_assemblyJson a)).trans
      (assembly_outline rfl (Nat.le_refl maxNesting) a)
  refine ⟨hread, fun text htext => ?_⟩
  have hfits : textNesting (renderAssembly a) ≤ 127 := by
    rw [textNesting_renderAssembly]
    exact nesting_le_of_parseAssembly htext
  exact ⟨hfits, by rw [hread, if_pos hfits]⟩

/-- An assembly with one property, stored under a key that is not the
name of its definition. -/
def shelter : Assembly where
  name := "pets"
  types := [("kennel", .interface {
    fqn := "pets.Kennel"
    properties := [{ name := "guests", type := .collection .array (.named "pets.Dog") }] })]

/-- The same assembly in another form: records as arrays, the kind of
the definition behind its fields, and a member that nobody knows. -/
def shelterForm : Json :=
  .arr [.str "pets", .null, .obj [("kennel", .obj [
    ("properties", .arr [.arr [.str "guests",
      .obj [("collection", .arr [.obj [("array", .null)], .obj [("fqn", .str "pets.Dog")]])]]]),
    ("comment", .arr [.arr [.arr []]]),
    ("kind", .str "interface"),
    ("fqn", .str "pets.Kennel")])]]

theorem parseAssembly_renderAssembly_shelter :
    parseAssembly shelterForm.pretty = .ok shelter ∧
      textNesting (renderAssembly shelter) ≤ 127 ∧
      parseAssembly (renderAssembly shelter) = .ok shelter := by
  have hfree : shelterForm.NumberFree := by
    simp [shelterForm, NumberFree, ItemsNumberFree, MembersNumberFree]
  have hform : parseAssembly shelterForm.pretty = .ok shelter :=
    (parseAssembly_pretty hfree).trans rfl
  exact ⟨hform, (parseAssembly_renderAssembly shelter).2 _ hform⟩

/-- An assembly with arrays inside each other. -/
def stackedArrays (layers : Nat) : Assembly where
  name := "pets"
  types := [("pets.Kennel", .interface {
    fqn := "pets.Kennel"
    properties := [{
      name := "guests"
      type := Nat.repeat (TypeRef.collection .array) layers (.named "pets.Dog") }] })]

-- Sixty arrays can be read again, and one more cannot.
example : (assemblyJson (stackedArrays 60)).nesting = 126 ∧
    (assemblyJson (stackedArrays 61)).nesting = 128 := by
  decide +kernel

end OverrideCheck.Interchange
