import OverrideCheck.Lineage
import OverrideCheck.Walk.Guard

/-!
# `OverrideCheck.Ancestry`: everything a definition inherits from

The ancestors of a class are its base classes, nearest first, and all
interfaces that it or one of them lists, directly or through other
interfaces; those of an interface are the interfaces above it. They
are found depth first, each interface name once, in the order in which
they are met: a definition's own interfaces come before those of its
base.

The walk is guarded, and it records what it could not follow: names
that stand for nothing, names at which it came back to its own path,
and names at which the guard's limits cut it. If there are none of
these, it has seen everything.

Names are remembered as they are written, the guard's path holds what
the definitions call themselves. The two agree in a world where
definitions are found under their own names, and only there.
-/

set_option autoImplicit false

namespace OverrideCheck

/-- What a definition inherits from, and what could not be followed. -/
structure Ancestors where
  /-- Base classes, the nearest first. -/
  bases : List ClassDef := []
  /-- Interfaces, each name once, in the order of discovery. -/
  interfaces : List InterfaceDef := []
  /-- Names that stand for nothing. -/
  unresolved : List String := []
  /-- Names at which the walk returned to its own path. -/
  cycles : List String := []
  /-- Names at which a limit cut the walk. -/
  limitExceeded : List String := []
  deriving DecidableEq, Repr, Inhabited

namespace Ancestors

/-- Everything could be followed. -/
def isComplete (a : Ancestors) : Bool :=
  a.unresolved.isEmpty && a.cycles.isEmpty && a.limitExceeded.isEmpty

/-- The nearest base class that declares a member of the name. -/
def baseDeclaring? (a : Ancestors) (name : String) : Option ClassDef :=
  a.bases.find? fun c => (c.member? name).isSome

/-- The interfaces that declare a member of the name. -/
def interfacesDeclaring (a : Ancestors) (name : String) : List InterfaceDef :=
  a.interfaces.filter fun i => (i.member? name).isSome

/-- The walk under way. -/
structure Walk where
  guard : Guard := { limits := .inheritance }
  /-- The interface names met so far. -/
  seen : List String := []
  found : Ancestors := {}
  deriving DecidableEq, Repr, Inhabited

namespace Walk

/-- Where the walk is after a step. -/
abbrev Progress := Except Misuse Walk

/-- Record a name at which the walk returned to its path. -/
def addCycle (s : Walk) (fqn : String) : Walk :=
  { s with found := { s.found with cycles := s.found.cycles ++ [fqn] } }

/-- Record a name that stands for nothing. -/
def addUnresolved (s : Walk) (fqn : String) : Walk :=
  { s with found := { s.found with unresolved := s.found.unresolved ++ [fqn] } }

/-- Record a name at which a limit cut the walk. -/
def addLimit (s : Walk) (fqn : String) : Walk :=
  { s with found := { s.found with limitExceeded := s.found.limitExceeded ++ [fqn] } }

/-- Record an interface. -/
def addInterface (s : Walk) (i : InterfaceDef) : Walk :=
  { s with found := { s.found with interfaces := s.found.interfaces ++ [i] } }

/-- Go through the interfaces above an interface, inside the guard. -/
def above (go : List String → Walk → Progress) (i : InterfaceDef) (s : Walk) : Progress :=
  match s.guard.enter i.fqn with
  | (.entered, guard) => do
    let s ← go i.interfaces { s with guard }
    let guard ← s.guard.leave i.fqn
    return { s with guard }
  | (.cycle, guard) => .ok ({ s with guard }.addCycle i.fqn)
  | (_, guard) => .ok ({ s with guard }.addLimit i.fqn)

/-- Meet a listed name. One that is on the path closes a cycle even if
it was met before. -/
def meet (w : World) (go : List String → Walk → Progress) (name : String) (s : Walk) : Progress :=
  if s.guard.isVisiting name then .ok (s.addCycle name)
  else if name ∈ s.seen then .ok s
  else
    let s := { s with seen := name :: s.seen }
    match w.resolve name with
    | some (.interface i) => above go i (s.addInterface i)
    | some _ => .ok s
    | none => .ok (s.addUnresolved name)

/-- Meet the names of a list one after the other. -/
def meetAll (meet : String → Walk → Progress) : List String → Walk → Progress
  | [], s => .ok s
  | name :: names, s => do
    let s ← meet name s
    meetAll meet names s

/-- Go through a list of names and what is above them, with at most this
many levels of lists below one another. -/
def explore (w : World) : Nat → List String → Walk → Progress
  | 0, _, s => .ok s
  | levels + 1, names, s => meetAll (meet w (explore w levels)) names s

/-- More levels than the guard grants. -/
def levels (s : Walk) : Nat := s.guard.limits.maxDepth + 1

/-- Go through the interfaces of one class after the other. -/
def exploreClasses (w : World) : List ClassDef → Walk → Progress
  | [], s => .ok s
  | c :: rest, s => do
    let s ← explore w s.levels c.interfaces s
    exploreClasses w rest s

/-- Record how the chain of base classes ended. -/
def addEnding (s : Walk) : ChainEnd → Walk
  | .root | .nonClass _ => s
  | .unresolved fqn => s.addUnresolved fqn
  | .cycle fqn => s.addCycle fqn

/-- The whole walk from a definition. -/
def run (w : World) : TypeDef → Progress
  | .class c => do
    let lineage := w.lineage c
    let s ← exploreClasses w (c :: lineage.bases) { found.bases := lineage.bases }
    return s.addEnding lineage.ending
  | .interface i =>
    let s : Walk := { seen := [i.fqn] }
    above (explore w s.levels) i s
  | .enum _ => .ok {}

/-- The second walk stands where the first one stood. -/
structure SamePlace (s s' : Walk) : Prop where
  path : s'.guard.path = s.guard.path
  depth : s'.guard.depth = s.guard.depth
  limits : s'.guard.limits = s.guard.limits

theorem SamePlace.trans {a b c : Walk} (h : SamePlace a b) (k : SamePlace b c) : SamePlace a c :=
  ⟨k.path.trans h.path, k.depth.trans h.depth, k.limits.trans h.limits⟩

/-- The step succeeds, and comes back to where it started. -/
def Returns (step : Walk → Progress) : Prop := ∀ s, ∃ s', step s = .ok s' ∧ SamePlace s s'

theorem returns_ok {f : Walk → Walk} (h : ∀ s, (f s).guard = s.guard) :
    Returns fun s => .ok (f s) :=
  fun s => ⟨f s, rfl, by rw [h], by rw [h], by rw [h]⟩

theorem returns_above {go : List String → Walk → Progress} (h : ∀ names, Returns (go names))
    (i : InterfaceDef) : Returns (above go i) := by
  intro s
  rcases he : s.guard.enter i.fqn with ⟨e, guard⟩
  by_cases hent : e = .entered
  · subst hent
    obtain ⟨-, hpath, hdepth, hlimits, -⟩ := Guard.enter_entered he
    obtain ⟨s₁, h₁, p₁⟩ := h i.interfaces { s with guard }
    have hleave := Guard.leave_top (p₁.path.trans hpath)
    refine ⟨{ s₁ with
        guard := { s₁.guard with path := s.guard.path, depth := s₁.guard.depth - 1 } },
      by simp [above, he, h₁, bind, Except.bind, hleave, pure, Except.pure], rfl, ?_,
      p₁.limits.trans hlimits⟩
    show s₁.guard.depth - 1 = s.guard.depth
    rw [p₁.depth]
    show guard.depth - 1 = s.guard.depth
    omega
  · obtain ⟨hpath, hdepth, hlimits⟩ := Guard.enter_denied he hent
    cases e with
    | entered => exact absurd rfl hent
    | cycle =>
      exact ⟨{ s with guard }.addCycle i.fqn, by simp only [above, he], hpath, hdepth, hlimits⟩
    | depthExceeded =>
      exact ⟨{ s with guard }.addLimit i.fqn, by simp only [above, he], hpath, hdepth, hlimits⟩
    | attemptsExceeded =>
      exact ⟨{ s with guard }.addLimit i.fqn, by simp only [above, he], hpath, hdepth, hlimits⟩

theorem returns_meet (w : World) {go : List String → Walk → Progress}
    (h : ∀ names, Returns (go names)) (name : String) : Returns (meet w go name) := by
  intro s
  unfold meet
  split
  · exact returns_ok (f := (addCycle · name)) (fun _ => rfl) s
  · split
    · exact returns_ok (f := id) (fun _ => rfl) s
    · dsimp only
      split
      · next i _ =>
        obtain ⟨s', e, p⟩ := returns_above h i
          ({ s with seen := name :: s.seen }.addInterface i)
        exact ⟨s', e, p.path, p.depth, p.limits⟩
      · exact ⟨_, rfl, rfl, rfl, rfl⟩
      · exact ⟨_, rfl, rfl, rfl, rfl⟩

theorem returns_meetAll {meet : String → Walk → Progress} (h : ∀ name, Returns (meet name)) :
    ∀ names, Returns (meetAll meet names)
  | [] => returns_ok (f := id) fun _ => rfl
  | name :: names => fun s => by
    obtain ⟨s₁, h₁, p₁⟩ := h name s
    obtain ⟨s₂, h₂, p₂⟩ := returns_meetAll h names s₁
    exact ⟨s₂, by simp [meetAll, h₁, bind, Except.bind, h₂], p₁.trans p₂⟩

theorem returns_explore (w : World) : ∀ levels names, Returns (explore w levels names)
  | 0, _ => returns_ok (f := id) fun _ => rfl
  | levels + 1, names => returns_meetAll (returns_meet w (returns_explore w levels)) names

theorem returns_exploreClasses (w : World) : ∀ classes, Returns (exploreClasses w classes)
  | [] => returns_ok (f := id) fun _ => rfl
  | c :: rest => fun s => by
    obtain ⟨s₁, h₁, p₁⟩ := returns_explore w s.levels c.interfaces s
    obtain ⟨s₂, h₂, p₂⟩ := returns_exploreClasses w rest s₁
    exact ⟨s₂, by simp [exploreClasses, h₁, bind, Except.bind, h₂], p₁.trans p₂⟩

/-- The walk always ends: no name is left that was not entered. -/
theorem exists_run_eq_ok (w : World) (d : TypeDef) : ∃ s, run w d = .ok s := by
  cases d with
  | «class» c =>
    obtain ⟨s, h, -⟩ := returns_exploreClasses w (c :: (w.lineage c).bases)
      { found.bases := (w.lineage c).bases }
    exact ⟨_, by simp only [run, h, bind, Except.bind]; rfl⟩
  | interface i =>
    obtain ⟨s, h, -⟩ := returns_above (returns_explore w _) i { seen := [i.fqn] }
    exact ⟨s, h⟩
  | enum _ => exact ⟨_, rfl⟩

end Walk

/-- The ancestors of a definition. It need not be one of the world's
own. An enumeration has none. -/
def collect (w : World) (d : TypeDef) : Ancestors :=
  match _result : Walk.run w d with
  | .ok s => s.found
  | .error _ => absurd _result (by
      obtain ⟨_, h⟩ := Walk.exists_run_eq_ok w d
      simp [h])

/-- What `collect` gives is what the walk found. -/
theorem collect_eq {w : World} {d : TypeDef} {s : Walk} (h : Walk.run w d = .ok s) :
    collect w d = s.found := by
  unfold collect
  split
  · next h' => rw [h] at h'; cases h'; rfl
  · next h' => rw [h] at h'; cases h'

end Ancestors

end OverrideCheck
