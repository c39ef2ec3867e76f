import OverrideCheck.Proofs.Ancestry.Cycles
import OverrideCheck.Proofs.InterfaceChain
import OverrideCheck.Proofs.Narrowing.Layers

/-!
# `OverrideCheck.Proofs.Narrowing.Truth`: the reasons of a query are true

A query leaves reasons from many places, and some of them on the way to
success. Two kinds of reasons say something about the world, and this
module shows that they say it rightly (`Reason.Truthful`): a name that
is reported as unresolved stands for nothing, and a name that is
reported as a cycle leads back to itself.

The first is plain, since the reason is left where the lookup fails.
The second is not. A search reports a cycle when the guard finds a name
on its path, and that is a cycle only because the path is no more than
the way by which the search came: every name on it leads to all names
that are about to be met (`World.PathLeads`). The guard knows what
definitions call themselves, so this takes a world where they are found
under their own names. A lineage reports a cycle when it meets a class
again, and there the argument is that of `World.revisits_of_ending`.

A checker is `Honest` if all its reasons are true. Each rule of a search
keeps this (`Search.honest`), and so does the comparison of two names
(`Verdict.honest`). The other rules leave reasons of other kinds.
-/

set_option autoImplicit false

namespace OverrideCheck

open Relation (TransGen)

/-- What a reason says about the world is so. A reason that says nothing
about the world passes. -/
def Reason.Truthful (w : World) : Reason → Prop
  | .unresolvedType fqn => w.resolve fqn = none
  | .inheritanceCycle fqn =>
    w.WellKeyed → TransGen w.BaseEdge fqn fqn ∨ TransGen w.InterfaceEdge fqn fqn
  | _ => True

namespace Checker

variable {w : World} {target : String}

/-- All reasons that the checker holds are true. -/
def Honest (w : World) (c : Checker) : Prop := ∀ r ∈ c.trace, r.Truthful w

theorem Honest.note {c : Checker} (h : Honest w c) {r : Reason} (hr : r.Truthful w) :
    Honest w (c.note r) :=
  List.forall_mem_cons.2 ⟨hr, h⟩

theorem Honest.settle {answer : Bool × Checker} (h : Honest w answer.2) {r : Reason}
    (hr : r.Truthful w) : Honest w (settle r answer).2 := by
  rcases answer with ⟨found, c⟩
  cases found with
  | true => exact h
  | false => exact h.note hr

/-- A search leaves true reasons. -/
theorem Search.honest {names : List String} {c c' : Checker} {found : Bool}
    (h : Search w target names c found c') (hc : Honest w c)
    (hpath : w.WellKeyed → w.PathLeads c.guard.path names) : Honest w c' := by
  induction h with
  | exhausted | hit => exact hc
  | known _ _ _ ih | other _ _ _ _ _ ih => exact ih hc fun hw => (hpath hw).tail
  | unresolved _ _ hnone _ ih => exact ih (hc.note hnone) fun hw => (hpath hw).tail
  | cycle _ _ hsome henter _ ih =>
    refine ih (Honest.note hc fun hw => .inr ?_) fun hw => (hpath hw).denied henter nofun
    -- The name on the path has led here, and here it is met again.
    exact (hpath hw).cycle hw hsome henter
  | cut _ _ _ henter he _ ih =>
    exact ih (Honest.note hc trivial) fun hw =>
      (hpath hw).denied henter (by rintro rfl; cases he)
  | above _ _ hsome henter _ ih => exact ih hc fun hw => (hpath hw).entered hw hsome henter
  | failed _ _ hsome henter _ _ ihInner ih =>
    exact ih (ihInner hc fun hw => (hpath hw).entered hw hsome henter) fun hw => (hpath hw).tail

/-- How a lineage ended is reported rightly. -/
theorem Honest.noteEnding {c : Checker} (h : Honest w c) {s : String} {k : ClassDef}
    (hs : w.resolve s = some (.class k)) : Honest w (c.noteEnding (w.lineage k).ending) := by
  cases hend : (w.lineage k).ending with
  | root | nonClass _ => exact h
  | unresolved name => exact h.note (World.resolve_of_ending_unresolved [k.fqn] k name hend)
  | cycle name =>
    refine h.note fun hw => .inl ?_
    obtain ⟨b, -, rfl, hcycle⟩ := World.revisits_of_ending hw (hw.resolve_fqn hs) hend
    exact hw.baseEdges_of_revisited hcycle

/-- The comparison of two names leaves true reasons. -/
theorem Verdict.honest {s t : String} {c : Checker} {answer : Bool × Checker}
    (h : Verdict w s t c answer) (hc : Honest w c) (hpath : c.guard.path = []) :
    Honest w answer.2 := by
  have hleads (names : List String) : w.PathLeads c.guard.path names := by
    rw [hpath]
    exact World.pathLeads_nil names
  cases h with
  | unresolvedSub hs => exact Honest.note hc hs
  | unresolvedSup _ ht => exact Honest.note hc ht
  | unrelated => exact Honest.note hc trivial
  | @classes _ _ chain hs =>
    refine Honest.settle ?_ trivial
    unfold lineageExtends
    split
    · exact hc
    · exact Honest.noteEnding (c := { c with explored := [], chain }) hc hs
  | interfaces _ _ search => exact (search.honest hc fun _ => hleads _).settle trivial
  | @implementation _ _ found _ _ hs _ search =>
    refine Honest.settle ?_ trivial
    have hsearch := search.honest hc fun _ => hleads _
    cases found with
    | true => exact hsearch
    | false => exact hsearch.noteEnding hs

/-- Every query leaves true reasons, whatever it answers. -/
theorem honest_ask (w : World) (sub sup : Option TypeRef) :
    Honest w (Checker.new.ask w sub sup).2 := by
  have layers {n : Nat} {a b : TypeRef} : ∀ r ∈ elementMismatches n a b, r.Truthful w := by
    intro r hr
    obtain ⟨x, y, rfl⟩ := exists_eq_of_mem_elementMismatches hr
    trivial
  have outcome := outcome_ask w sub sup
  unfold Honest
  generalize (Checker.new.ask w sub sup).1 = found at outcome
  generalize (Checker.new.ask w sub sup).2.trace = reasons at outcome ⊢
  cases outcome with
  | void | equal => simp
  | voidSub | voidSup | malformed => simp [Reason.Truthful]
  | tooDeep => exact List.forall_mem_append.2 ⟨layers, by simp [Reason.Truthful]⟩
  | @shapes a b n =>
    refine List.forall_mem_append.2 ⟨layers, fun r hr => ?_⟩
    rw [List.mem_singleton.1 hr]
    obtain ⟨hunresolved, hcycle, -⟩ := shapeRefusal_ne (a.peel n) (b.peel n)
    unfold Reason.Truthful
    split
    · next fqn h => exact absurd h (hunresolved fqn)
    · next fqn h => exact absurd h (hcycle fqn)
    · trivial
  | names _ verdict =>
    have hnames := verdict.honest (by simp [Honest, Checker.new]) rfl
    split
    · exact hnames
    · exact List.forall_mem_append.2 ⟨layers, hnames⟩

/-- A query that is refused has left a reason. -/
theorem trace_ne_nil_of_refused {sub sup : Option TypeRef}
    (h : (Checker.new.ask w sub sup).1 = false) : (Checker.new.ask w sub sup).2.trace ≠ [] := by
  have outcome := outcome_ask w sub sup
  rw [h] at outcome
  generalize (Checker.new.ask w sub sup).2.trace = reasons at outcome ⊢
  generalize hfound : false = found at outcome
  cases outcome with
  | void | equal => cases hfound
  | voidSub | voidSup | malformed | tooDeep | shapes => simp
  | names _ verdict =>
    obtain ⟨r, rest, htrace, -⟩ := verdict.nameReason hfound.symm
    simp [← hfound, htrace]

end Checker

/-- An explanation has no reasons exactly if there is nothing to
explain. -/
theorem reasons_explain_eq_nil_iff {w : World} {sub sup : Option TypeRef} :
    (explain w sub sup).reasons = [] ↔ isAllowed w sub sup = true := by
  refine ⟨fun hreasons => ?_, reasons_explain⟩
  by_contra h
  rw [Bool.not_eq_true] at h
  rw [Checker.explain_of_refused h] at hreasons
  exact Checker.trace_ne_nil_of_refused h hreasons

/-- An explanation agrees with the answer and tells the truth. In every
world, it allows what is allowed, and it has no reasons exactly then; a
refusal is explained by all the reasons that the query has left. Of the
reasons that a query leaves, refused or not, those for an unresolved
type name what stands for nothing. Where definitions are found under
their own names, those for a cycle name what leads to itself over base
edges or over interface edges, so without cycles there are none. -/
theorem explain_truthful (w : World) (sub sup : Option TypeRef) :
    (explain w sub sup).allowed = isAllowed w sub sup ∧
    ((explain w sub sup).reasons = [] ↔ isAllowed w sub sup = true) ∧
    (isAllowed w sub sup = false →
      (explain w sub sup).reasons = (Checker.new.ask w sub sup).2.trace) ∧
    (∀ fqn, .unresolvedType fqn ∈ (Checker.new.ask w sub sup).2.trace → w.resolve fqn = none) ∧
    (w.WellKeyed →
      (∀ fqn, .inheritanceCycle fqn ∈ (Checker.new.ask w sub sup).2.trace →
        TransGen w.BaseEdge fqn fqn ∨ TransGen w.InterfaceEdge fqn fqn) ∧
      (w.Acyclic → ∀ fqn, .inheritanceCycle fqn ∉ (Checker.new.ask w sub sup).2.trace)) := by
  have honest := Checker.honest_ask w sub sup
  have refused (h : isAllowed w sub sup = false) :
      (explain w sub sup).reasons = (Checker.new.ask w sub sup).2.trace := by
    rw [Checker.explain_of_refused h]
  refine ⟨allowed_explain w sub sup, reasons_explain_eq_nil_iff, refused,
    fun fqn hmem => honest _ hmem, fun hw => ?_⟩
  have cycles (fqn : String)
      (hmem : .inheritanceCycle fqn ∈ (Checker.new.ask w sub sup).2.trace) :
      TransGen w.BaseEdge fqn fqn ∨ TransGen w.InterfaceEdge fqn fqn := honest _ hmem hw
  refine ⟨cycles, fun hacyclic fqn hmem => ?_⟩
  rcases cycles fqn hmem with hcycle | hcycle
  · exact hacyclic.bases fqn hcycle
  · exact hacyclic.interfaces fqn hcycle

/-- Two classes that are each other's base. The first of them lists a
name that stands for nothing before an interface. -/
def circlingPets : Assembly where
  name := "pet"
  types := [
    ("pet.Dog", .class {
      fqn := "pet.Dog", base := some "pet.Hound", interfaces := ["pet.Gone", "pet.Tagged"] }),
    ("pet.Hound", .class { fqn := "pet.Hound", base := some "pet.Dog" }),
    ("pet.Tagged", .interface { fqn := "pet.Tagged" }),
    ("pet.Lone", .interface { fqn := "pet.Lone" })]

/-- A diamond of interfaces, and one beside it. -/
def diamondPets : Assembly where
  name := "pet"
  types := [
    ("pet.Bottom", .interface { fqn := "pet.Bottom", interfaces := ["pet.Left", "pet.Right"] }),
    ("pet.Left", .interface { fqn := "pet.Left", interfaces := ["pet.Top"] }),
    ("pet.Right", .interface { fqn := "pet.Right", interfaces := ["pet.Top"] }),
    ("pet.Top", .interface { fqn := "pet.Top" }),
    ("pet.Lone", .interface { fqn := "pet.Lone" })]

/-- On the way to a success, what could not be resolved is named. The
refusal of the interface that nobody lists has reasons, and the class
that one of them names as a cycle is on one. No cycle is reported on a
diamond. -/
theorem explain_truthful_pets :
    (isAllowed (World.of circlingPets []) (some (.named "pet.Dog")) (some (.named "pet.Tagged"))
        = true ∧
      (World.of circlingPets []).resolve "pet.Gone" = none) ∧
    ((explain (World.of circlingPets []) (some (.named "pet.Dog")) (some (.named "pet.Lone"))).reasons
        ≠ [] ∧
      (TransGen (World.of circlingPets []).BaseEdge "pet.Dog" "pet.Dog" ∨
        TransGen (World.of circlingPets []).InterfaceEdge "pet.Dog" "pet.Dog")) ∧
    ∀ fqn, .inheritanceCycle fqn ∉ (Checker.new.ask (World.of diamondPets [])
      (some (.named "pet.Bottom")) (some (.named "pet.Lone"))).2.trace := by
  have hkeyed : (World.of circlingPets []).WellKeyed := World.wellKeyed_of (by decide +kernel)
  have hkeyed' : (World.of diamondPets []).WellKeyed := World.wellKeyed_of (by decide +kernel)
  have hacyclic : (World.of diamondPets []).Acyclic :=
    World.acyclic_of (["pet.Top", "pet.Left", "pet.Right", "pet.Bottom"].idxOf ·)
      (by decide +kernel)
  obtain ⟨-, -, -, hgone, -⟩ := explain_truthful (World.of circlingPets [])
    (some (.named "pet.Dog")) (some (.named "pet.Tagged"))
  obtain ⟨-, hreasons, -, -, hcycles⟩ := explain_truthful (World.of circlingPets [])
    (some (.named "pet.Dog")) (some (.named "pet.Lone"))
  obtain ⟨-, -, -, -, hnone⟩ := explain_truthful (World.of diamondPets [])
    (some (.named "pet.Bottom")) (some (.named "pet.Lone"))
  refine ⟨⟨by decide +kernel, hgone _ (by decide +kernel)⟩, ⟨fun h => ?_, ?_⟩,
    (hnone hkeyed').2 hacyclic⟩
  · exact absurd (hreasons.1 h) (by decide +kernel)
  · exact (hcycles hkeyed).1 _ (by decide +kernel)

end OverrideCheck
