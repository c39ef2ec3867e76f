import OverrideCheck.Proofs.Ancestry.BaseChain
import OverrideCheck.Proofs.Narrowing.BaseChain

/-!
# `OverrideCheck.Proofs.Totality`: queries and collections come to an end

Queries about names and the collection of ancestors go along chains of
base classes and into graphs of interfaces, and nothing about a world
promises that these are free of cycles. This module shows that they
come to an end in every world, also where definitions are found under
other names than their own.

* Along base classes there are three loops: for a base of the name
  (`Checker.extendsLoop`), for an interface of the name
  (`Checker.implementsLoop`), and for all interfaces
  (`Walk.classLoop`). They are `World.baseLoop` with different visits,
  and end within as many passes as there are names of classes, and one.
* Into interfaces, the searches recurse on a number of levels, and give
  up without a word when it runs out. That this never happens is said by
  an alarm. `Checker.watched` and `Walk.watched` are the same recursions
  with something else in the place of giving up, and also where more
  than 256 names are on the path of the guard. Whatever the alarm does
  and however many levels there are, from 257 on, they run like the
  searches themselves (`watched_eq`).

`searches_end` puts this together.
-/

set_option autoImplicit false

namespace OverrideCheck

/-! ### The guard below the start of a search -/

namespace Guard

/-- The guard has counted its path, and there is room on it for this
many levels of a search. -/
structure Within (levels : Nat) (g : Guard) : Prop where
  limits : g.limits = .inheritance
  depth : g.depth = g.path.length
  room : g.Room levels

/-- A guard that stands at its start. -/
theorem within_new : Within (Limits.inheritance.maxDepth + 1) { limits := .inheritance } :=
  ⟨rfl, rfl, room_of_depth_le (g := { limits := .inheritance }) (Nat.zero_le _)⟩

namespace Within

variable {levels : Nat} {g g' : Guard}

theorem congr (h : Within levels g) (hpath : g'.path = g.path) (hdepth : g'.depth = g.depth)
    (hlimits : g'.limits = g.limits) : Within levels g' where
  limits := hlimits.trans h.limits
  depth := by rw [hdepth, hpath, h.depth]
  room := h.room.congr hdepth hlimits

theorem mono (h : Within levels g) {more : Nat} (hmore : levels ≤ more) : Within more g where
  limits := h.limits
  depth := h.depth
  room := ⟨h.room.within, Nat.lt_of_lt_of_le h.room.beyond (Nat.add_le_add_left hmore _)⟩

/-- One level further down. -/
theorem enter (h : Within (levels + 1) g) {name : String}
    (henter : g.enter name = (.entered, g')) : Within levels g' := by
  obtain ⟨-, hpath, hdepth, hlimits, -⟩ := enter_entered henter
  exact {
    limits := hlimits.trans h.limits
    depth := by rw [hdepth, hpath, List.length_cons, h.depth]
    room := h.room.enter henter }

/-- No more names are on the path than the guard grants, and there is a
level left. -/
theorem bounded (h : Within levels g) : g.path.length ≤ 256 ∧ 0 < levels := by
  have hwithin : g.depth ≤ g.limits.maxDepth := h.room.within
  have hbeyond : g.limits.maxDepth < g.depth + levels := h.room.beyond
  have hmax : g.limits.maxDepth = 256 := by rw [h.limits]; rfl
  rw [← h.depth]
  omega

end Within

end Guard

/-! ### Queries -/

namespace Checker

/-- The loop that looks for a base of the name. -/
def extendsLoop (w : World) (target : String) (passes : Nat) (k : ClassDef) (c : Checker) :
    Except Misuse (Option (Passes Checker)) :=
  followLoop w (baseVisit target).look passes k c

/-- The loop that looks for an interface: `search` looks through the
interfaces that a class lists. -/
def implementsLoop (w : World) (search : List String → Checker → Answer) (passes : Nat)
    (k : ClassDef) (c : Checker) : Except Misuse (Option (Passes Checker)) :=
  followLoop w (fun k => search k.interfaces) passes k c

/-- The search through a list of names, with an alarm. It goes off where
the levels run out, and where more than 256 interfaces are entered at
once. -/
def watched (w : World) (target : String) (alarm : List String → Checker → Answer) :
    Nat → List String → Checker → Answer
  | 0, names, c => alarm names c
  | levels + 1, names, c =>
    if c.guard.path.length ≤ 256 then
      firstFound (leadsTo w target (watched w target alarm levels)) names c
    else alarm names c

variable {w : World} {target : String}

/-- The loop for a base gives what `classExtends` gives. -/
theorem exists_extendsLoop (w : World) (target : String) {passes : Nat}
    (hpasses : w.classNames.length < passes) (k : ClassDef) (c : Checker) :
    ∃ r, extendsLoop w target passes k c = .ok (some r) ∧ r.Orderly w k ∧
      classExtends w target k c = .ok (r.ending.isNone, r.concluded noteEnding) := by
  obtain ⟨r, hloop, hfollow, -, halong⟩ :=
    exists_followLoop_eq w (baseVisit target) (fun _ => returns_ok) hpasses k c
  exact ⟨r, hloop, halong.orderly, hfollow⟩

/-- The loop for an interface gives what `classImplements` gives. -/
theorem exists_implementsLoop (w : World) (target : String) {passes : Nat}
    (hpasses : w.classNames.length < passes) (k : ClassDef) (c : Checker) :
    ∃ r, implementsLoop w (lists w target) passes k c = .ok (some r) ∧ r.Orderly w k ∧
      classImplements w target k c = .ok (r.ending.isNone, r.concluded noteEnding) := by
  obtain ⟨r, hloop, hfollow, -, halong⟩ := exists_followLoop_eq w (interfaceVisit w target)
    (fun k => returns_lists w target k.interfaces) hpasses k c
  exact ⟨r, hloop, halong.orderly, hfollow⟩

/-- A search above an interface is up to the search inside, from where
the guard lets it in. -/
theorem above_eq_of_entered {search search' : List String → Checker → Answer} {i : InterfaceDef}
    {c : Checker} (h : ∀ guard, c.guard.enter i.fqn = (.entered, guard) →
      search' i.interfaces { c with guard } = search i.interfaces { c with guard }) :
    above search' i c = above search i c := by
  unfold above
  rcases henter : c.guard.enter i.fqn with ⟨e, guard⟩
  cases e with
  | entered => simp only [h guard henter]
  | cycle | depthExceeded | attemptsExceeded => rfl

/-- Names are asked for in turn from the same place. -/
theorem firstFound_eq_of_samePlace {visit visit' : String → Checker → Answer} {c : Checker}
    (hreturns : ∀ name, Returns (visit name))
    (h : ∀ name c', SamePlace c c' → visit' name c' = visit name c') :
    ∀ (names : List String) (c' : Checker), SamePlace c c' →
      firstFound visit' names c' = firstFound visit names c'
  | [], _, _ => rfl
  | name :: names, c', same => by
    obtain ⟨found, c₁, hrun, same₁⟩ := hreturns name c'
    simp only [firstFound, h name c' same, hrun, bind, Except.bind]
    rw [firstFound_eq_of_samePlace hreturns h names c₁ (same.trans same₁)]

/-- The alarm never goes off, as long as the guard has room for the
levels, and then their number does not matter either. -/
theorem watched_eq (alarm : List String → Checker → Answer) :
    ∀ (levels levels' : Nat) (names : List String) (c : Checker), c.guard.Within levels →
      c.guard.Within levels' →
      watched w target alarm levels names c = reaches w target levels' names c
  | 0, _, _, _, h, _ => absurd h.bounded.2 (Nat.lt_irrefl 0)
  | _ + 1, 0, _, _, _, h => absurd h.bounded.2 (Nat.lt_irrefl 0)
  | levels + 1, levels' + 1, names, c, h, h' => by
    rw [watched, if_pos h.bounded.1, reaches]
    refine firstFound_eq_of_samePlace (returns_leadsTo w target (returns_reaches w target levels'))
      ?_ names c (.refl c)
    intro name c' same
    -- Inside an interface that is entered there is room for one level less.
    have inside (i : InterfaceDef) : above (watched w target alarm levels) i c' =
        above (reaches w target levels') i c' := by
      refine above_eq_of_entered fun guard henter => ?_
      exact watched_eq alarm levels levels' i.interfaces { c' with guard }
        ((h.congr same.path same.depth same.limits).enter henter)
        ((h'.congr same.path same.depth same.limits).enter henter)
    simp only [leadsTo, inside]

/-- No alarm goes off in what is started from a checker: in the loop for
an interface, and in the search above an interface. -/
structure Quiet (w : World) (c : Checker) : Prop where
  ofClass (target : String) (alarm : List String → Checker → Answer) (levels : Nat)
    (hlevels : 256 < levels) (passes : Nat) (k : ClassDef) :
    implementsLoop w (watched w target alarm levels) passes k c =
      implementsLoop w (lists w target) passes k c
  ofInterface (target : String) (alarm : List String → Checker → Answer) (levels : Nat)
    (hlevels : 256 < levels) (i : InterfaceDef) :
    above (watched w target alarm levels) i c = interfaceExtends w target i c

/-- A query starts with a guard like this one. -/
theorem quiet_of_guard {c : Checker} (hc : c.guard = { limits := .inheritance }) : Quiet w c := by
  have hstart : c.guard.Within (Limits.inheritance.maxDepth + 1) := hc ▸ Guard.within_new
  have hlevels (c : Checker) (h : c.guard.Within (Limits.inheritance.maxDepth + 1)) :
      c.levels = Limits.inheritance.maxDepth + 1 := by rw [levels, h.limits]
  refine ⟨?_, ?_⟩
  · intro target alarm levels hmore passes k
    -- Between the searches the guard stands at its start.
    refine World.baseLoop_congr (P := fun c => c.guard.Within (Limits.inheritance.maxDepth + 1))
      ?_ ?_ ?_ passes [k.fqn] k _ hstart
    · intro k c h
      refine watched_eq alarm levels c.levels k.interfaces c (h.mono hmore) ?_
      rw [hlevels c h]
      exact h
    · intro k c found c' h hrun
      have same := (returns_lists w target k.interfaces).samePlace hrun
      exact h.congr same.path same.depth same.limits
    · intro k c h
      exact h
  · intro target alarm levels hmore i
    refine above_eq_of_entered fun guard henter => ?_
    have inside (levels : Nat) (hlevels : 256 < levels) : guard.Within levels :=
      ((hstart.mono hlevels).mono (Nat.le_succ _)).enter henter
    refine watched_eq alarm levels c.levels i.interfaces { c with guard } (inside levels hmore) ?_
    rw [hlevels c hstart]
    exact inside _ (Nat.lt_succ_self _)

end Checker

/-! ### Collections -/

namespace Ancestors

namespace Walk

/-- The walk through a list of names, with an alarm. It goes off where
the levels run out, and where more than 256 interfaces are entered at
once. -/
def watched (w : World) (alarm : List String → Walk → Progress) :
    Nat → List String → Walk → Progress
  | 0, names, s => alarm names s
  | levels + 1, names, s =>
    if s.guard.path.length ≤ 256 then meetAll (meet w (watched w alarm levels)) names s
    else alarm names s

variable {w : World}

/-- Going above an interface is up to the walk inside, from where the
guard lets it in. -/
theorem above_eq_of_entered {go go' : List String → Walk → Progress} {i : InterfaceDef} {s : Walk}
    (h : ∀ guard, s.guard.enter i.fqn = (.entered, guard) →
      go' i.interfaces { s with guard } = go i.interfaces { s with guard }) :
    above go' i s = above go i s := by
  unfold above
  rcases henter : s.guard.enter i.fqn with ⟨e, guard⟩
  cases e with
  | entered => simp only [h guard henter]
  | cycle | depthExceeded | attemptsExceeded => rfl

/-- Names are met in turn from the same place. -/
theorem meetAll_eq_of_samePlace {meet meet' : String → Walk → Progress} {s : Walk}
    (hreturns : ∀ name, Returns (meet name))
    (h : ∀ name s', SamePlace s s' → meet' name s' = meet name s') :
    ∀ (names : List String) (s' : Walk), SamePlace s s' →
      meetAll meet' names s' = meetAll meet names s'
  | [], _, _ => rfl
  | name :: names, s', same => by
    obtain ⟨s₁, hrun, same₁⟩ := hreturns name s'
    simp only [meetAll, h name s' same, hrun, bind, Except.bind]
    rw [meetAll_eq_of_samePlace hreturns h names s₁ (same.trans same₁)]

/-- The alarm never goes off, as long as the guard has room for the
levels, and then their number does not matter either. -/
theorem watched_eq (alarm : List String → Walk → Progress) :
    ∀ (levels levels' : Nat) (names : List String) (s : Walk), s.guard.Within levels →
      s.guard.Within levels' → watched w alarm levels names s = explore w levels' names s
  | 0, _, _, _, h, _ => absurd h.bounded.2 (Nat.lt_irrefl 0)
  | _ + 1, 0, _, _, _, h => absurd h.bounded.2 (Nat.lt_irrefl 0)
  | levels + 1, levels' + 1, names, s, h, h' => by
    rw [watched, if_pos h.bounded.1, explore]
    refine meetAll_eq_of_samePlace (returns_meet w (returns_explore w levels')) ?_ names s
      ⟨rfl, rfl, rfl⟩
    intro name s' same
    -- The guard is asked after the name was marked, which does not touch it.
    have inside (i : InterfaceDef) (s₁ : Walk) (hguard : s₁.guard = s'.guard) :
        above (watched w alarm levels) i s₁ = above (explore w levels') i s₁ := by
      refine above_eq_of_entered fun guard henter => ?_
      rw [hguard] at henter
      exact watched_eq alarm levels levels' i.interfaces { s₁ with guard }
        ((h.congr same.path same.depth same.limits).enter henter)
        ((h'.congr same.path same.depth same.limits).enter henter)
    unfold meet
    split
    · rfl
    · split
      · rfl
      · dsimp only
        split
        · exact inside _ _ rfl
        · rfl
        · rfl

/-- No alarm goes off in a collection: neither from a class nor from an
interface. -/
structure Quiet (w : World) : Prop where
  ofClass (alarm : List String → Walk → Progress) (levels : Nat) (hlevels : 256 < levels)
    (passes : Nat) (k : ClassDef) :
    classLoop w (watched w alarm levels) passes k = classLoop w (through w) passes k
  ofInterface (alarm : List String → Walk → Progress) (levels : Nat) (hlevels : 256 < levels)
    (i : InterfaceDef) :
    above (watched w alarm levels) i { seen := [i.fqn] } = run w (.interface i)

theorem quiet (w : World) : Quiet w := by
  have hlevels (s : Walk) (h : s.guard.Within (Limits.inheritance.maxDepth + 1)) :
      s.levels = Limits.inheritance.maxDepth + 1 := by rw [levels, h.limits]
  refine ⟨?_, ?_⟩
  · intro alarm levels hmore passes k
    refine World.baseLoop_congr
      (P := fun s : Walk => s.guard.Within (Limits.inheritance.maxDepth + 1))
      ?_ ?_ ?_ passes [k.fqn] k {} Guard.within_new
    · intro c s h
      refine congrArg (Except.map (false, ·)) ?_
      refine watched_eq alarm levels s.levels c.interfaces s (h.mono hmore) ?_
      rw [hlevels s h]
      exact h
    · intro c s found s' h hrun
      obtain ⟨s₁, hthrough, same⟩ := returns_explore w s.levels c.interfaces s
      rw [visitClass, through, hthrough] at hrun
      cases hrun
      exact h.congr same.path same.depth same.limits
    · intro c s h
      exact h
  · intro alarm levels hmore i
    refine above_eq_of_entered fun guard henter => ?_
    have inside (levels : Nat) (hlevels : 256 < levels) : guard.Within levels :=
      ((Guard.within_new.mono hlevels).mono (Nat.le_succ _)).enter henter
    exact watched_eq alarm levels _ i.interfaces _ (inside levels hmore)
      (inside _ (Nat.lt_succ_self _))

end Walk

end Ancestors

open Ancestors (Walk collect)
open Checker (noteEnding)

/-- Everything that follows inheritance comes to an end, in every world:
also where bases and interfaces form cycles, and where definitions are
found under other names than their own. The three loops along base
classes end by themselves if they have one pass more than there are
names of classes, and have passed no name twice. They are not cut short:
a chain that repeats no name is visited as a whole, however long it is.
In the recursion into interfaces that they start never more than 256 of
them are entered at once, and its levels do not run out: with an alarm
for both, it runs like the one without, from every checker with a guard
at its start and in every collection. So every query has an answer, and
every collection a result. -/
theorem searches_end (w : World) :
    (∀ passes, w.classNames.length < passes → ∀ k : ClassDef,
      (∀ target c, ∃ r, Checker.extendsLoop w target passes k c = .ok (some r) ∧ r.Orderly w k ∧
        Checker.classExtends w target k c = .ok (r.ending.isNone, r.concluded noteEnding)) ∧
      (∀ target c, ∃ r,
        Checker.implementsLoop w (Checker.lists w target) passes k c = .ok (some r) ∧
        r.Orderly w k ∧
        Checker.classImplements w target k c = .ok (r.ending.isNone, r.concluded noteEnding)) ∧
      ∃ r, Walk.classLoop w (Walk.through w) passes k = .ok (some r) ∧ r.Orderly w k ∧
        r.visited = k :: (collect w (.class k)).bases ∧
        Walk.run w (.class k) = .ok (r.concluded Walk.addEnding)) ∧
    (∀ c : Checker, c.guard = { limits := .inheritance } → Checker.Quiet w c) ∧
    Walk.Quiet w ∧
    (∀ sub sup c, ∃ answer, Checker.check w sub sup c = .ok answer) ∧
    ∀ d, ∃ s, Walk.run w d = .ok s := by
  refine ⟨?_, fun c => Checker.quiet_of_guard, Walk.quiet w, ?_, Walk.exists_run_eq_ok w⟩
  · intro passes hpasses k
    exact ⟨fun target c => Checker.exists_extendsLoop w target hpasses k c,
      fun target c => Checker.exists_implementsLoop w target hpasses k c,
      Walk.exists_classLoop w hpasses k⟩
  · intro sub sup c
    obtain ⟨allowed, c', h⟩ := Checker.exists_check_eq_ok w sub sup c
    exact ⟨_, h⟩

/-- A dog that calls itself a hound, and has a wolf above it. -/
def hound : ClassDef where
  fqn := "pet.Hound"
  base := some "pet.Wolf"
  interfaces := ["pet.Runs"]

/-- An interface that is found as one that runs. -/
def moves : InterfaceDef where
  fqn := "pet.Moves"
  interfaces := ["pet.Hunts"]

/-- The wolf has the dog above it in turn. Two interfaces list each
other, and one of them calls itself by another name as well. -/
def roamingPets : Assembly where
  name := "pet"
  types := [
    ("pet.Dog", .class hound),
    ("pet.Wolf", .class { fqn := "pet.Wolf", base := some "pet.Dog" }),
    ("pet.Runs", .interface moves),
    ("pet.Hunts", .interface { fqn := "pet.Hunts", interfaces := ["pet.Runs"] })]

/-- There are two names of classes. Within three passes the loop for a
base that is nowhere ends, without it, and so does the loop through all
classes, which has passed the dog and the wolf. The search for an
interface that is nowhere goes around the two interfaces, and its alarm,
which would be a misuse, does not go off, neither from the interface nor
from the class. -/
theorem searches_end_roamingPets :
    (World.of roamingPets []).classNames.length < 3 ∧
    (∃ r, Checker.extendsLoop (World.of roamingPets []) "pet.Cat" 3 hound .new = .ok (some r) ∧
      r.Orderly (World.of roamingPets []) hound ∧ r.ending.isNone = false) ∧
    (∃ r, Walk.classLoop (World.of roamingPets []) (Walk.through (World.of roamingPets [])) 3 hound
        = .ok (some r) ∧
      r.visited = [hound, { fqn := "pet.Wolf", base := some "pet.Dog" }]) ∧
    (∃ c, Checker.above (Checker.watched (World.of roamingPets []) "pet.Cat"
        (fun _ _ => .error .leftUnentered) 257) moves .new = .ok (false, c)) ∧
    ∃ r, Checker.implementsLoop (World.of roamingPets []) (Checker.watched (World.of roamingPets [])
        "pet.Cat" (fun _ _ => .error .leftUnentered) 257) 3 hound .new = .ok (some r) := by
  have hcount : (World.of roamingPets []).classNames.length < 3 := by decide +kernel
  obtain ⟨hloops, hquiet, -⟩ := searches_end (World.of roamingPets [])
  obtain ⟨hextends, himplements, r, hloop, -, hvisited, -⟩ := hloops 3 hcount hound
  have quiet := hquiet .new rfl
  refine ⟨hcount, ?_, ⟨r, hloop, ?_⟩, ?_, ?_⟩
  · obtain ⟨r, hrun, horderly, hanswer⟩ := hextends "pet.Cat" .new
    refine ⟨r, hrun, horderly, ?_⟩
    have hno : (Checker.classExtends (World.of roamingPets []) "pet.Cat" hound .new).map (·.1)
        = .ok false := by decide +kernel
    rw [hanswer] at hno
    exact Except.ok.inj hno
  · rw [hvisited]
    have hbases : (collect (World.of roamingPets []) (.class hound)).bases
        = [{ fqn := "pet.Wolf", base := some "pet.Dog" }] := by decide +kernel
    rw [hbases]
  · rw [quiet.ofInterface "pet.Cat" _ 257 (by decide)]
    obtain ⟨found, c, hrun, -⟩ :=
      Checker.returns_interfaceExtends (World.of roamingPets []) "pet.Cat" moves .new
    have hno : (Checker.interfaceExtends (World.of roamingPets []) "pet.Cat" moves .new).map (·.1)
        = .ok false := by decide +kernel
    rw [hrun] at hno
    rw [hrun, show found = false from Except.ok.inj hno]
    exact ⟨c, rfl⟩
  · rw [quiet.ofClass "pet.Cat" _ 257 (by decide)]
    obtain ⟨r, hrun, -⟩ := himplements "pet.Cat" .new
    exact ⟨r, hrun⟩

end OverrideCheck
