import Mathlib.Data.List.Induction
import OverrideCheck.Command.Session
import OverrideCheck.Proofs.Interchange.RoundTrip
import OverrideCheck.Proofs.Narrowing.Growth
import OverrideCheck.Proofs.Resolution

/-!
# `OverrideCheck.Proofs.Dependencies`: dependencies that make no difference

Whether a dependency is looked into is decided in three places. Loading
keeps it only if none of its name was loaded before, a lookup takes the
first of its name, and a name that the checked assembly owns is looked
up there and nowhere else. This module shows that the three agree. What
is dropped at loading would never have been found, and nothing is found
in a dependency that is called like the assembly itself.

`Dependencies.firsts` is the list that loading has to come to: those
before which no other of their name stands. It is said by places in the
list, and has nothing of the loader in it. The loader comes to it one
assembly at a time (`firsts_concat`), and so does a whole load
(`loadAll_eq`).

All the lists that make no difference have one thing in common: for each
name but that of the assembly, the first dependency of the name is the
same (`Dependencies.AgreeFor`). So names stand for the same
(`AgreeFor.sameNames`), and then nothing can tell the lists apart
(`AgreeFor.sameResults`, by `Proofs/Resolution.lean`).
-/

set_option autoImplicit false

namespace OverrideCheck

namespace Dependencies

/-- No other dependency of the name stands before this place. -/
def isFirst (deps : Dependencies) (entry : Assembly × Nat) : Bool :=
  (deps.take entry.2).all (·.name ≠ entry.1.name)

/-- The first dependency of each name, in the order in which they
stand. -/
def firsts (deps : Dependencies) : Dependencies :=
  (deps.zipIdx.filter deps.isFirst).map (·.1)

/-- Nothing can tell two lists of dependencies of an assembly apart: not
an audit under any policy, nor a query to any checker, nor the ancestors
of any definition. -/
structure SameResults (a : Assembly) (deps deps' : Dependencies) : Prop where
  audit : ∀ p : Policy, Audit.checkAssembly p a deps = Audit.checkAssembly p a deps'
  query : ∀ (c : Checker) (sub sup : Option TypeRef),
    c.ask (World.of a deps) sub sup = c.ask (World.of a deps') sub sup
  ancestors : ∀ d : TypeDef,
    Ancestors.collect (World.of a deps) d = Ancestors.collect (World.of a deps') d

/-! ## Loading -/

theorem isSome_find?_iff {deps : Dependencies} {name : String} :
    (deps.find? name).isSome = true ↔ ∃ b ∈ deps, b.name = name := by
  simp [Dependencies.find?]

/-- One more dependency is a first one exactly if none of its name was
there. -/
theorem firsts_concat (deps : Dependencies) (a : Assembly) :
    firsts (deps ++ [a]) = if (deps.find? a.name).isSome then firsts deps
      else firsts deps ++ [a] := by
  -- What stands before an earlier one has not changed.
  have hearlier : deps.zipIdx.filter (isFirst (deps ++ [a])) = deps.zipIdx.filter deps.isFirst := by
    refine List.filter_congr fun entry hmem => ?_
    have hplace : entry.2 ≤ deps.length := Nat.le_of_lt (List.snd_lt_of_mem_zipIdx hmem)
    rw [isFirst, isFirst, List.take_append_of_le_length hplace]
  have hlast : isFirst (deps ++ [a]) (a, deps.length) = !(deps.find? a.name).isSome := by
    rw [isFirst, List.take_left, Bool.eq_iff_iff, Bool.not_eq_true', ← Bool.not_eq_true,
      isSome_find?_iff]
    simp
  rw [firsts, List.zipIdx_append, List.filter_append, hearlier, List.map_append]
  show firsts deps ++ ([(a, 0 + deps.length)].filter _).map _ = _
  rw [Nat.zero_add, List.filter_cons, hlast]
  cases (deps.find? a.name).isSome with
  | true => simp
  | false => simp

/-- The first dependency of a name is still found among the first
ones. -/
theorem find?_firsts (deps : Dependencies) (name : String) :
    (firsts deps).find? name = deps.find? name := by
  induction deps using List.reverseRecOn with
  | nil => rfl
  | append_singleton deps a ih =>
    have happend (ds : Dependencies) :
        Dependencies.find? (ds ++ [a]) name = (ds.find? name).or (Dependencies.find? [a] name) :=
      List.find?_append
    rw [firsts_concat, happend]
    split
    · next hknown =>
      rw [ih]
      by_cases hname : a.name = name
      · rw [hname] at hknown
        rw [Option.or_of_isSome hknown]
      · have hother : Dependencies.find? [a] name = none := by simp [Dependencies.find?, hname]
        rw [hother, Option.or_none]
    · rw [happend, ih]

theorem mem_of_mem_firsts {deps : Dependencies} {b : Assembly} (h : b ∈ firsts deps) :
    b ∈ deps := by
  obtain ⟨entry, hentry, rfl⟩ := List.mem_map.1 h
  exact List.fst_mem_of_mem_zipIdx (List.mem_filter.1 hentry).1

/-- No two of the first ones have one name. -/
theorem pairwise_firsts (deps : Dependencies) : (firsts deps).Pairwise (·.name ≠ ·.name) := by
  induction deps using List.reverseRecOn with
  | nil => exact .nil
  | append_singleton deps a ih =>
    rw [firsts_concat]
    split
    · exact ih
    · next hnew =>
      rw [isSome_find?_iff] at hnew
      refine List.pairwise_append.2 ⟨ih, List.pairwise_singleton _ _, ?_⟩
      intro b hb c hc heq
      rw [List.mem_singleton.1 hc] at heq
      exact hnew ⟨b, mem_of_mem_firsts hb, heq⟩

end Dependencies

namespace Session

variable {m : Type → Type} [Monad m] [LawfulMonad m]

/-- A file with the text of an assembly is loaded. -/
theorem loadAssembly_eq {files : FileAccess m} {path : Path} {text : String} {a : Assembly}
    (hread : files.read path = pure (.ok text)) (hparse : Interchange.parseAssembly text = .ok a) :
    loadAssembly files path = pure a := by
  refine ExceptT.ext ?_
  simp [loadAssembly, hread, hparse]

/-- Loading behind the first ones of some comes to the first ones of
all. -/
theorem loadAll_eq (files : FileAccess m) (paths : List Path) (before : Dependencies) :
    loadAll files paths before.firsts = do
      let loaded ← paths.mapM (loadAssembly files)
      return Dependencies.firsts (before ++ loaded) := by
  induction paths generalizing before with
  | nil => simp [loadAll]
  | cons path paths ih =>
    have hstep (a : Assembly) : (if (before.firsts.find? a.name).isSome then before.firsts
        else before.firsts ++ [a]) = Dependencies.firsts (before ++ [a]) := by
      rw [Dependencies.find?_firsts, Dependencies.firsts_concat]
    simp [loadAll, hstep, ih]

/-- The dependencies of a run are the first ones of all that are
loaded. -/
theorem loadDependencies_eq (files : FileAccess m) (options : Options) :
    loadDependencies files options = do
      let found ← collectDependencies files options.assembly.toList options.dependencyDirs
      let loaded ← (options.dependencies ++ found).mapM (loadAssembly files)
      return Dependencies.firsts loaded := by
  unfold loadDependencies
  refine bind_congr fun found => ?_
  exact loadAll_eq files (options.dependencies ++ found) []

end Session

/-! ## Lists that make no difference -/

namespace Dependencies

variable {a : Assembly} {deps deps' : Dependencies}

/-- For every name that the assembly does not have itself, the first
dependency of the name is the same in both lists. -/
def AgreeFor (a : Assembly) (deps deps' : Dependencies) : Prop :=
  ∀ name, name ≠ a.name → deps.find? name = deps'.find? name

/-- A dependency that is called like the assembly is never asked. -/
theorem AgreeFor.sameNames (h : AgreeFor a deps deps') :
    (World.of a deps).SameNames (World.of a deps') := by
  intro fqn
  simp only [World.of, World.find?]
  split
  · rfl
  · next howner => rw [h (ownerOf fqn) howner]

theorem AgreeFor.sameResults (h : AgreeFor a deps deps') : SameResults a deps deps' where
  audit p := by
    simp only [Audit.checkAssembly, Audit.checkType_congr h.sameNames]
  query c sub sup := Checker.ask_congr h.sameNames sub sup c
  ancestors d := Ancestors.collect_congr h.sameNames d

theorem agreeFor_firsts (a : Assembly) (deps : Dependencies) : AgreeFor a deps.firsts deps :=
  fun name _ => find?_firsts deps name

/-- Lists that differ only in dependencies that are called like the
assembly. -/
theorem agreeFor_of_filter_ne
    (h : deps.filter (·.name ≠ a.name) = deps'.filter (·.name ≠ a.name)) :
    AgreeFor a deps deps' := by
  have hfilter (ds : Dependencies) {name : String} (hname : name ≠ a.name) :
      (ds.filter (·.name ≠ a.name)).find? (·.name = name) = ds.find? name := by
    rw [List.find?_filter]
    refine congrArg (List.find? · ds) (funext fun b => ?_)
    by_cases hb : b.name = name
    · simp [hb, hname]
    · simp [hb]
  intro name hname
  rw [← hfilter deps hname, h, hfilter deps' hname]

/-- Lists that have the same dependencies of each name, in the same
order. -/
theorem agreeFor_of_filter_eq
    (h : ∀ name, deps.filter (·.name = name) = deps'.filter (·.name = name)) :
    AgreeFor a deps deps' := by
  intro name _
  rw [Dependencies.find?, Dependencies.find?, ← List.head?_filter, ← List.head?_filter, h name]

/-- Dependencies that make no difference. What a run loads is reduced to
the first of each name, in order, and no two of these have one name.
Nothing can tell the reduced list from the full one; nor from one with
more or fewer dependencies that are called like the assembly; nor from
a permutation of it in which those of each name keep their order. -/
theorem dependencies_inert {m : Type → Type} [Monad m] [LawfulMonad m] (files : FileAccess m)
    (options : Options) (a : Assembly) (deps : Dependencies) :
    (Session.loadDependencies files options = do
      let found ← Session.collectDependencies files options.assembly.toList options.dependencyDirs
      let loaded ← (options.dependencies ++ found).mapM (Session.loadAssembly files)
      return Dependencies.firsts loaded) ∧
    deps.firsts.Pairwise (·.name ≠ ·.name) ∧
    SameResults a deps.firsts deps ∧
    (∀ other : Dependencies,
      other.filter (·.name ≠ a.name) = deps.filter (·.name ≠ a.name) →
      SameResults a other deps) ∧
    (∀ other : Dependencies,
      (∀ name, other.filter (·.name = name) = deps.filter (·.name = name)) →
      SameResults a other deps) := by
  refine ⟨Session.loadDependencies_eq files options, pairwise_firsts deps,
    (agreeFor_firsts a deps).sameResults, fun other hothers => ?_, fun other hsame => ?_⟩
  · exact (agreeFor_of_filter_ne hothers).sameResults
  · exact (agreeFor_of_filter_eq hsame).sameResults

/-- Another assembly that calls itself `wild`. -/
def tamePets : Assembly where
  name := "wild"
  types := [("wild.Wolf", .interface { fqn := "wild.Wolf" })]

/-- Another assembly that calls itself `pet`. -/
def strayPets : Assembly where
  name := "pet"
  types := [("pet.Dog", .interface { fqn := "pet.Dog" })]

/-- Three files with one assembly each. -/
def petFiles : FileAccess Id where
  read path := .ok (Interchange.renderAssembly
    (if path.text = "wild.json" then wildPets
      else if path.text = "tame.json" then tamePets else strayPets))
  isFile _ := true
  isDirectory _ := false
  filesBelow _ := []

/-- A run that names all of them. -/
def petOptions : Options where
  dependencies := [⟨"wild.json"⟩, ⟨"tame.json"⟩, ⟨"stray.json"⟩]
  policy := {}

/-- Of the three assemblies that a run loads, two are of one name, and
the first of these is kept. Nothing can tell the reduced list from the
full one. The stray assembly, which is called like the checked one, may
be left out or stand before the others. -/
theorem dependencies_inert_pets :
    (Session.loadDependencies petFiles petOptions).run = .ok [wildPets, strayPets] ∧
    SameResults reachingPets [wildPets, strayPets] [wildPets, tamePets, strayPets] ∧
    SameResults reachingPets [wildPets, tamePets] [wildPets, tamePets, strayPets] ∧
    SameResults reachingPets [strayPets, wildPets, tamePets] [wildPets, tamePets, strayPets] := by
  obtain ⟨hload, -, hfirsts, hothers, hsame⟩ := dependencies_inert petFiles petOptions reachingPets
    [wildPets, tamePets, strayPets]
  have hread (a : Assembly) (h : (Interchange.assemblyJson a).nesting ≤ Json.maxNesting) :
      Interchange.parseAssembly (Interchange.renderAssembly a) = .ok a :=
    (Interchange.parseAssembly_pretty (Interchange.numberFree_assemblyJson a)).trans
      ((Interchange.assembly_outline rfl (Nat.le_refl Json.maxNesting) a).trans (if_pos h))
  have hloaded : petOptions.dependencies.mapM (Session.loadAssembly petFiles)
      = pure [wildPets, tamePets, strayPets] := by
    have hwild : Session.loadAssembly petFiles ⟨"wild.json"⟩ = pure wildPets :=
      Session.loadAssembly_eq rfl (hread wildPets (by decide +kernel))
    have htame : Session.loadAssembly petFiles ⟨"tame.json"⟩ = pure tamePets :=
      Session.loadAssembly_eq rfl (hread tamePets (by decide +kernel))
    have hstray : Session.loadAssembly petFiles ⟨"stray.json"⟩ = pure strayPets :=
      Session.loadAssembly_eq rfl (hread strayPets (by decide +kernel))
    simp [petOptions, hwild, htame, hstray]
  have hcollected : Session.collectDependencies petFiles petOptions.assembly.toList
      petOptions.dependencyDirs = pure [] := rfl
  refine ⟨?_, hfirsts, hothers _ (by decide +kernel), hsame _ fun name => ?_⟩
  · rw [hload, hcollected, pure_bind, List.append_nil, hloaded, pure_bind]
    rfl
  · by_cases hpet : name = "pet"
    · subst hpet
      decide +kernel
    · simp [List.filter_cons, strayPets, Ne.symm hpet]

end Dependencies

end OverrideCheck
