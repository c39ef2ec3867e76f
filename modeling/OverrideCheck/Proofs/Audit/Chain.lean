import OverrideCheck.Proofs.Audit.Decision
import OverrideCheck.Proofs.Narrowing.Composition

/-!
# `OverrideCheck.Proofs.Audit.Chain`: overrides along a base chain

An audit compares a member with the nearest base class that declares
the name, and with no class above that. This is enough: along a chain
of classes that the audit has all seen, each declaration keeps the
contract with the next one, and contracts compose.

The induction is on the chain and its statement is about the nearest
declaration, since a class in between may lack the name
(`exists_nearestBase_of_chain`). The contract that is composed there is
in terms of `World.Refines`, which is transitive. The answers of a
checker are not, so only at the end the composed contract is turned
into one that the audit would accept
(`violations_eq_nil_of_chain`), and only there a limit matters.
-/

set_option autoImplicit false

namespace OverrideCheck

open Relation (TransGen)

namespace Audit

variable {p : Policy} {a : Assembly} {deps : Dependencies}

/-- A step to a base class within the assembly is a step in the world,
and leads to a class that is audited. -/
theorem baseStep_of_local (deps : Dependencies) {c parent : ClassDef}
    (h : (World.ofAssembly a).BaseStep c parent) :
    (World.of a deps).BaseStep c parent ∧ .class parent ∈ a.definitions := by
  obtain ⟨base, hbase, hfound⟩ := h
  refine ⟨⟨base, hbase, ?_⟩, (World.ofAssembly a).mem_of_resolve hfound⟩
  simp only [World.ofAssembly, Assembly.resolve] at hfound
  simp only [World.of, World.find?]
  split at hfound
  · next howner => rw [if_pos howner, hfound]
  · cases hfound

/-- In an assembly without findings, a member of a class keeps the
contract with the nearest declaration of its name. -/
theorem contract_of_nearestBase (hclean : (checkAssembly p a deps).diagnostics = []) {c b : ClassDef}
    {m o : Member} (hc : .class c ∈ a.definitions) (hm : m ∈ (TypeDef.class c).members)
    (nearest : (World.of a deps).NearestBase (fun k => (k.member? m.name).isSome = true) c b)
    (ho : b.member? m.name = some o) : Contract (World.of a deps).Refines m o := by
  have conforms := checkType_diagnostics_eq_nil_iff.1
    (checkAssembly_diagnostics_eq_nil_iff_checkType.1 hclean _ hc) .classMember rfl
  exact (conforms.contracts m hm .baseClass o (.ofBase rfl nearest ho)).imp
    fun h => .inr (refines_of_isAllowed h.2)

/-- In an assembly without findings, let a class of a chain declare the
name. Then the nearest declaration above the start of the chain keeps
the contract with it. -/
theorem exists_nearestBase_of_chain (hclean : (checkAssembly p a deps).diagnostics = [])
    {c b : ClassDef} {name : String} {d : Member}
    (chain : TransGen (World.ofAssembly a).BaseStep c b) (hd : b.member? name = some d) :
    ∃ k o, (World.of a deps).NearestBase (fun k => (k.member? name).isSome = true) c k ∧
      k.member? name = some o ∧ Contract (World.of a deps).Refines o d := by
  -- From the far end of the chain towards its start, one class at a time.
  induction chain using TransGen.head_induction_on with
  | single step =>
    have hdeclares : (b.member? name).isSome = true := by rw [hd]; rfl
    exact ⟨b, d, .here (baseStep_of_local deps step).1 hdeclares, hd, .refl _ d⟩
  | @head c parent step _ ih =>
    obtain ⟨step, hparent⟩ := baseStep_of_local deps step
    obtain ⟨k, o, nearest, ho, kept⟩ := ih
    cases hmember : parent.member? name with
    | none =>
      -- The parent says nothing about the name, so the nearest stays the same.
      have hlacks : ¬ (parent.member? name).isSome = true := by rw [hmember]; nofun
      exact ⟨k, o, .above step hlacks nearest, ho, kept⟩
    | some m =>
      -- The parent is now the nearest, and was itself compared with `o`.
      obtain ⟨hm, rfl⟩ := Member.mem_listOf_of_find? hmember
      have first : Contract (World.of a deps).Refines m o :=
        contract_of_nearestBase hclean hparent hm nearest ho
      have hdeclares : (parent.member? m.name).isSome = true := by rw [hmember]; rfl
      exact ⟨parent, m, .here step hdeclares, hmember,
        first.trans World.Refines.trans World.Refines.isSome_eq kept⟩

/-- Comparing with the nearest declaration is enough. In an assembly
without findings, whose world finds definitions under their own names,
take a member of a class and any class above it that is reached within
the assembly and declares the name. The audit would have nothing to say
about the two, unless a limit cuts the comparison of their types. -/
theorem violations_eq_nil_of_chain (p : Policy) (a : Assembly) (deps : Dependencies)
    (hw : (World.of a deps).WellKeyed) (hclean : (checkAssembly p a deps).diagnostics = [])
    (c b : ClassDef) (hc : .class c ∈ a.definitions)
    (chain : TransGen (World.ofAssembly a).BaseStep c b)
    (m : Member) (hm : m ∈ (TypeDef.class c).members) (d : Member)
    (hd : b.member? m.name = some d)
    (hlimit : (Checker.new.ask (World.of a deps) m.outputType d.outputType).2.guard.exceeded
      = false) :
    ({ typeFqn := c.fqn, member := m, ownerFqn := b.fqn, overridden := d,
       origin := .baseClass, declaredOn := .classMember } : OverridePair).violations p
      (World.of a deps) = [] := by
  obtain ⟨k, o, nearest, ho, kept⟩ := exists_nearestBase_of_chain hclean chain hd
  have composed : Contract (World.of a deps).Refines m d :=
    (contract_of_nearestBase hclean hc hm nearest ho).trans World.Refines.trans
      World.Refines.isSome_eq kept
  refine OverridePair.violations_eq_nil_iff.2 (composed.imp fun h => ?_)
  rcases h with heq | ⟨x, y, hx, hy, hnarrows⟩
  · exact .inl heq
  · rw [hx, hy] at hlimit ⊢
    exact .inr ⟨.inr ⟨rfl, rfl⟩, isAllowed_of_narrows hw hnarrows hlimit⟩

/-- The animals that a place takes in. -/
def guests (fqn : String) : Property where
  name := "guests"
  type := .array (.named fqn)
  immutable := true

/-- A place for all animals. -/
def shelter : ClassDef where
  fqn := "pet.Shelter"
  properties := [guests "pet.Animal"]

/-- A place for puppies. -/
def nursery : ClassDef where
  fqn := "pet.Nursery"
  base := some "pet.Kennel"
  properties := [guests "pet.Puppy"]

/-- Between nursery and shelter there are a kennel, which takes in dogs,
and a house, which says nothing about its guests. Puppies are a class
of dogs, and dogs implement the interface of animals. -/
def petPlaces : Assembly where
  name := "pet"
  types := [
    ("pet.Nursery", .class nursery),
    ("pet.Kennel", .class
      { fqn := "pet.Kennel", base := some "pet.House", properties := [guests "pet.Dog"] }),
    ("pet.House", .class { fqn := "pet.House", base := some "pet.Shelter" }),
    ("pet.Shelter", .class shelter),
    ("pet.Puppy", .class { fqn := "pet.Puppy", base := some "pet.Dog" }),
    ("pet.Dog", .class { fqn := "pet.Dog", interfaces := ["pet.Animal"] }),
    ("pet.Animal", .interface { fqn := "pet.Animal" })]

/-- The nursery is compared with the kennel alone, and fits the shelter
as well. -/
theorem violations_eq_nil_petPlaces :
    (checkAssembly {} petPlaces []).diagnostics = [] ∧
    TransGen (World.ofAssembly petPlaces).BaseStep nursery shelter ∧
    ({ typeFqn := "pet.Nursery", member := .property (guests "pet.Puppy"),
       ownerFqn := "pet.Shelter", overridden := .property (guests "pet.Animal"),
       origin := .baseClass, declaredOn := .classMember } : OverridePair).violations {}
      (World.of petPlaces []) = [] := by
  have hkeyed : (World.of petPlaces []).WellKeyed := World.wellKeyed_of (by decide +kernel)
  have hclean : (checkAssembly {} petPlaces []).diagnostics = [] := by decide +kernel
  have chain : TransGen (World.ofAssembly petPlaces).BaseStep nursery shelter :=
    .head ⟨"pet.Kennel", rfl, rfl⟩ (.head ⟨"pet.House", rfl, rfl⟩
      (.single ⟨"pet.Shelter", rfl, rfl⟩))
  have hlimit : (Checker.new.ask (World.of petPlaces []) (some (guests "pet.Puppy").type)
      (some (guests "pet.Animal").type)).2.guard.exceeded = false := by decide +kernel
  exact ⟨hclean, chain, violations_eq_nil_of_chain {} petPlaces [] hkeyed hclean nursery shelter
    List.mem_cons_self chain (.property (guests "pet.Puppy")) List.mem_cons_self
    (.property (guests "pet.Animal")) rfl hlimit⟩

end Audit

end OverrideCheck
