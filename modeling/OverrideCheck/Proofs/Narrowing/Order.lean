import OverrideCheck.Proofs.Narrowing.Composition

/-!
# `OverrideCheck.Proofs.Narrowing.Order`: the order among types

Which types may stand in for which is an order among the well formed
references. This module puts its three laws together. They do not ask
the same of the world.

* A reference may stand in for itself exactly if it is well formed
  (`isAllowed_self`). The world does not matter: the names need not
  stand for anything, and no layer is entered.
* Narrowings compose where definitions are found under their own names,
  cycles or not, as far as no limit cuts the composed query
  (`isAllowed_trans`). The limit on array layers needs no exception,
  because the layers of the composed query are those of its parts.
* Two references that may stand in for each other are equal where there
  are no cycles (`eq_of_isAllowed`). On a cycle of classes this fails:
  each of them is above all the others.
-/

set_option autoImplicit false

namespace OverrideCheck

variable {w : World}

/-- Void may stand in for void. -/
theorem isAllowed_void (w : World) : isAllowed w none none = true := by
  have h := Checker.check_eq_ok_ask w none none Checker.new
  exact congrArg Prod.fst (Except.ok.inj h).symm

/-- A reference may stand in for itself exactly if it is well formed. -/
theorem isAllowed_self (w : World) (t : TypeRef) :
    isAllowed w (some t) (some t) = t.wellFormed := by
  cases hwf : t.wellFormed with
  | true => exact (Checker.descent_of_ask hwf hwf).found_of_eq rfl
  | false =>
    have h := Checker.check_eq_ok_ask w (some t) (some t) Checker.new
    simp only [Checker.check, hwf, Bool.not_false, if_true] at h
    exact congrArg Prod.fst (Except.ok.inj h).symm

/-- Two narrowings in a row are allowed at once, unless a limit cuts
that query. -/
theorem isAllowed_trans (hw : w.WellKeyed) {a b c : TypeRef}
    (hab : isAllowed w (some a) (some b) = true) (hbc : isAllowed w (some b) (some c) = true)
    (hexceeded : (Checker.new.ask w (some a) (some c)).2.guard.exceeded = false) :
    isAllowed w (some a) (some c) = true := by
  rcases eq_or_narrows_of_isAllowed hab with rfl | hab'
  · exact hbc
  · rcases eq_or_narrows_of_isAllowed hbc with rfl | hbc'
    · exact hab
    · exact isAllowed_of_narrows hw (hab'.trans hbc') hexceeded

/-- Without cycles, no two references narrow each other. -/
theorem World.Narrows.asymm (hacyclic : w.Acyclic) {a b : TypeRef} (hab : w.Narrows a b) :
    ¬ w.Narrows b a := by
  rintro ⟨m, -, t', s', hb', ha', hts⟩
  obtain ⟨n, -, s, t, ha, hb, hst⟩ := hab
  obtain ⟨-, rfl⟩ := TypeRef.layers_inj (ha.symm.trans ha')
  obtain ⟨-, rfl⟩ := TypeRef.layers_inj (hb.symm.trans hb')
  exact hst.asymm hacyclic hts

/-- Without cycles, references that may stand in for each other are
equal. -/
theorem eq_of_isAllowed (hacyclic : w.Acyclic) {a b : TypeRef}
    (hab : isAllowed w (some a) (some b) = true) (hba : isAllowed w (some b) (some a) = true) :
    a = b := by
  rcases eq_or_narrows_of_isAllowed hab with heq | hab'
  · exact heq
  · rcases eq_or_narrows_of_isAllowed hba with heq | hba'
    · exact heq.symm
    · exact absurd hba' (hab'.asymm hacyclic)

/-- The types that may stand in for one another form an order. In every
world a reference may stand in for itself exactly if it is well formed.
Where definitions are found under their own names, narrowings compose,
unless a limit cuts the composed query; cycles do no harm. Without
cycles, references that may stand in for each other are equal. -/
theorem isAllowed_refl_trans_antisymm (w : World) :
    (∀ t : TypeRef, isAllowed w (some t) (some t) = true ↔ t.wellFormed = true) ∧
    (w.WellKeyed → ∀ a b c : TypeRef, isAllowed w (some a) (some b) = true →
      isAllowed w (some b) (some c) = true →
      (Checker.new.ask w (some a) (some c)).2.guard.exceeded = false →
      isAllowed w (some a) (some c) = true) ∧
    (w.Acyclic → ∀ a b : TypeRef, isAllowed w (some a) (some b) = true →
      isAllowed w (some b) (some a) = true → a = b) := by
  refine ⟨fun t => ?_, fun hw a b c hab hbc hexceeded => ?_, fun hacyclic a b hab hba => ?_⟩
  · rw [isAllowed_self]
  · exact isAllowed_trans hw hab hbc hexceeded
  · exact eq_of_isAllowed hacyclic hab hba

/-- A class above another, and an interface above both. -/
def orderedPets : Assembly where
  name := "pet"
  types := [
    ("pet.Tagged", .interface { fqn := "pet.Tagged" }),
    ("pet.Animal", .class { fqn := "pet.Animal", interfaces := ["pet.Tagged"] }),
    ("pet.Dog", .class { fqn := "pet.Dog", base := some "pet.Animal" })]

/-- A name that stands for nothing may stand in for itself inside
arrays. Among the pets on cycles, an array of dogs narrows an array of
what is on the left, which narrows an array of what is far, and so the
dogs narrow that. Where the pets are in order, a dog may stand in for
an animal and not the other way round. -/
theorem order_of_pets :
    isAllowed (World.of knottedPets []) (some (.array (.array (.named "pet.Nobody"))))
      (some (.array (.array (.named "pet.Nobody")))) = true ∧
    (isAllowed (World.of knottedPets []) (some (.array (.named "pet.Dog")))
        (some (.array (.named "pet.Left"))) = true ∧
      isAllowed (World.of knottedPets []) (some (.array (.named "pet.Left")))
        (some (.array (.named "pet.Far"))) = true ∧
      isAllowed (World.of knottedPets []) (some (.array (.named "pet.Dog")))
        (some (.array (.named "pet.Far"))) = true) ∧
    (isAllowed (World.of orderedPets []) (some (.named "pet.Dog"))
        (some (.named "pet.Animal")) = true ∧
      isAllowed (World.of orderedPets []) (some (.named "pet.Animal"))
        (some (.named "pet.Dog")) = false) := by
  have hkeyed : (World.of knottedPets []).WellKeyed := World.wellKeyed_of (by decide +kernel)
  have hacyclic : (World.of orderedPets []).Acyclic :=
    World.acyclic_of (["pet.Tagged", "pet.Animal", "pet.Dog"].idxOf ·) (by decide +kernel)
  have hdog : isAllowed (World.of knottedPets []) (some (.array (.named "pet.Dog")))
      (some (.array (.named "pet.Left"))) = true := by decide +kernel
  have hleft : isAllowed (World.of knottedPets []) (some (.array (.named "pet.Left")))
      (some (.array (.named "pet.Far"))) = true := by decide +kernel
  have hanimal : isAllowed (World.of orderedPets []) (some (.named "pet.Dog"))
      (some (.named "pet.Animal")) = true := by decide +kernel
  obtain ⟨hrefl, htrans, -⟩ := isAllowed_refl_trans_antisymm (World.of knottedPets [])
  obtain ⟨-, -, hantisymm⟩ := isAllowed_refl_trans_antisymm (World.of orderedPets [])
  refine ⟨(hrefl _).2 rfl, ⟨hdog, hleft, ?_⟩, hanimal, ?_⟩
  · exact htrans hkeyed _ _ _ hdog hleft (by decide +kernel)
  · refine Bool.eq_false_iff.2 fun hback => ?_
    have heq := hantisymm hacyclic _ _ hanimal hback
    simp at heq

end OverrideCheck
