import OverrideCheck.Proofs.Narrowing.Order

/-!
# `OverrideCheck.Proofs.Narrowing.Growth`: more dependencies keep narrowings

Names that stand for nothing end a walk. With more dependencies some of
them stand for something, so that a walk goes on where it used to end:
into new lists, new cycles, interfaces that it remembers before it
comes to the branch that led to success. This module shows that no
narrowing is lost on the way.

The two walks are not compared with each other, since they have little
in common. What the first one found is a path in the inheritance graph,
and paths survive when a world grows (`World.Within`): a definition that
was found is found again, with the same base and the same list. Then
the second walk finds some path because there is one, unless a limit
cuts it (`isAllowed_of_within`).
-/

set_option autoImplicit false

namespace OverrideCheck

namespace World

variable {w w' : World}

/-- What is found in the first world is found in the second one, under
the same name. The second world may know more names. -/
def Within (w w' : World) : Prop :=
  ∀ fqn d, w.resolve fqn = some d → w'.resolve fqn = some d

/-- Dependencies behind the others take no name away. -/
theorem within_append (a : Assembly) (deps more : Dependencies) :
    (of a deps).Within (of a (deps ++ more)) := by
  intro fqn d h
  simp only [of, find?] at h ⊢
  split
  · next howner => rwa [if_pos howner] at h
  · next howner =>
    rw [if_neg howner] at h
    obtain ⟨dep, hdep, hget⟩ := Option.bind_eq_some_iff.1 h
    -- The first dependency of the name is still the first one.
    have hfirst : Dependencies.find? (deps ++ more) (ownerOf fqn) = some dep := by
      simp only [Dependencies.find?] at hdep ⊢
      rw [List.find?_append, hdep, Option.some_or]
    exact Option.bind_eq_some_iff.2 ⟨dep, hfirst, hget⟩

theorem BaseChain.within (h : w.Within w') {c b : ClassDef} (chain : w.BaseChain c b) :
    w'.BaseChain c b :=
  chain.lift id fun _ _ ⟨base, hbase, hfound⟩ => ⟨base, hbase, h _ _ hfound⟩

theorem Leads.within (h : w.Within w') {names : List String} {t : String}
    (leads : w.Leads names t) : w'.Leads names t := by
  obtain ⟨x, hx, path⟩ := leads
  exact ⟨x, hx, path.lift id fun _ _ ⟨i, hi, hlisted⟩ => ⟨i, h _ _ hi, hlisted⟩⟩

/-- Inheritance survives when a world grows. -/
theorem Inherits.within (h : w.Within w') {s t : String} (hst : w.Inherits s t) :
    w'.Inherits s t := by
  cases hst with
  | subclass hs ht chain base => exact .subclass (h _ _ hs) (h _ _ ht) (chain.within h) base
  | subinterface hs ht leads => exact .subinterface (h _ _ hs) (h _ _ ht) (leads.within h)
  | implementation hs ht chain leads =>
    exact .implementation (h _ _ hs) (h _ _ ht) (chain.within h) (leads.within h)

theorem Narrows.within (h : w.Within w') {a b : TypeRef} (hab : w.Narrows a b) :
    w'.Narrows a b := by
  obtain ⟨n, hn, s, t, ha, hb, hst⟩ := hab
  exact ⟨n, hn, s, t, ha, hb, hst.within h⟩

end World

/-- What is allowed is allowed in a larger world, too, if definitions are
found there under their own names and no limit cuts the query there. -/
theorem isAllowed_of_within {w w' : World} (hw : w'.WellKeyed) (h : w.Within w')
    {sub sup : Option TypeRef} (hallowed : isAllowed w sub sup = true)
    (hexceeded : (Checker.new.ask w' sub sup).2.guard.exceeded = false) :
    isAllowed w' sub sup = true := by
  rcases Checker.cases_of_ask_allowed hallowed with ⟨rfl, rfl⟩ | ⟨a, b, rfl, rfl, ha, -⟩
  · exact isAllowed_void w'
  · rcases eq_or_narrows_of_isAllowed hallowed with rfl | hnarrows
    · rw [isAllowed_self, ha]
    · exact isAllowed_of_narrows hw (hnarrows.within h) hexceeded

/-- More dependencies take nothing away. A name that stands for a
definition stands for the same one with more dependencies behind the
others. If all definitions are then found under their own names, what
could be narrowed can be narrowed still, unless a limit cuts the new
query. -/
theorem isAllowed_of_more_dependencies (a : Assembly) (deps more : Dependencies)
    (hkeyed : (World.of a (deps ++ more)).WellKeyed) :
    (∀ fqn d, (World.of a deps).resolve fqn = some d →
      (World.of a (deps ++ more)).resolve fqn = some d) ∧
    ∀ sub sup : Option TypeRef, isAllowed (World.of a deps) sub sup = true →
      (Checker.new.ask (World.of a (deps ++ more)) sub sup).2.guard.exceeded = false →
      isAllowed (World.of a (deps ++ more)) sub sup = true := by
  have hwithin := World.within_append a deps more
  exact ⟨hwithin, fun sub sup => isAllowed_of_within hkeyed hwithin⟩

/-- A class that lists a name of another assembly before an
interface. -/
def reachingPets : Assembly where
  name := "pet"
  types := [
    ("pet.Dog", .class {
      fqn := "pet.Dog", base := some "wild.Wolf", interfaces := ["wild.Pack", "pet.Left"] }),
    ("pet.Left", .interface { fqn := "pet.Left", interfaces := ["wild.Pack", "pet.Tagged"] }),
    ("pet.Tagged", .interface { fqn := "pet.Tagged" })]

/-- The other assembly. Its interfaces list each other and lead back. -/
def wildPets : Assembly where
  name := "wild"
  types := [
    ("wild.Wolf", .class { fqn := "wild.Wolf" }),
    ("wild.Pack", .interface { fqn := "wild.Pack", interfaces := ["wild.Pride", "pet.Left"] }),
    ("wild.Pride", .interface { fqn := "wild.Pride", interfaces := ["wild.Pack"] })]

/-- Without the other assembly, the dog is tagged, and the wolf stands
for nothing. With it the walk goes through the cycles first, and the dog
is tagged still. -/
theorem isAllowed_reachingPets :
    (World.of reachingPets []).resolve "wild.Wolf" = none ∧
    isAllowed (World.of reachingPets []) (some (.named "pet.Dog")) (some (.named "pet.Tagged"))
      = true ∧
    (World.of reachingPets [wildPets]).resolve "pet.Left"
      = (World.of reachingPets []).resolve "pet.Left" ∧
    isAllowed (World.of reachingPets [wildPets]) (some (.named "pet.Dog"))
      (some (.named "pet.Tagged")) = true := by
  have hkeyed : (World.of reachingPets ([] ++ [wildPets])).WellKeyed :=
    World.wellKeyed_of (by decide +kernel)
  have hallowed : isAllowed (World.of reachingPets []) (some (.named "pet.Dog"))
      (some (.named "pet.Tagged")) = true := by decide +kernel
  obtain ⟨hsame, hstill⟩ := isAllowed_of_more_dependencies reachingPets [] [wildPets] hkeyed
  refine ⟨by decide +kernel, hallowed, ?_, hstill _ _ hallowed (by decide +kernel)⟩
  obtain ⟨d, hd⟩ : ∃ d, (World.of reachingPets []).resolve "pet.Left" = some d :=
    Option.isSome_iff_exists.1 (by decide +kernel)
  rw [hd]
  exact hsame _ _ hd

end OverrideCheck
