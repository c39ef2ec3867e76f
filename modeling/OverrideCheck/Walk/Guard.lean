/-!
# `OverrideCheck.Walk.Guard`: the guard of an inheritance walk

Nothing promises that the interfaces of an API form a hierarchy, so
every walk over them asks a guard before it goes one level down. The
guard knows the names on the path from the start of the walk to where
it stands, how deep that is, and how often it was asked since it was
last reset.

It answers in a fixed order. An attempt beyond the budget is refused
for that, whatever else is wrong; then one that is too deep; then one
that would return to a name on the path, which is a cycle and not a
limit. Only then is the name entered. A diamond is no cycle: a name
that was left may be entered again.

Who entered a name has to leave it. Leaving a name that is not on the
path, or dropping the guard with names on it, is a `Misuse`: a mistake
of the walk, never of the API that it walks over.
-/

set_option autoImplicit false

namespace OverrideCheck

/-- A mistake in the use of a guard or a counter. -/
inductive Misuse where
  /-- A name was left that is not on the path. -/
  | leftUnentered
  /-- The guard was dropped with this many names on its path. -/
  | pathRemains (count : Nat)
  /-- A level was left that was not entered. -/
  | leftTooOften
  /-- The counter was dropped at this depth. -/
  | depthRemains (depth : Nat)
  deriving DecidableEq, Repr, Inhabited

/-- What is said of the mistake. -/
def Misuse.message : Misuse → String
  | leftUnentered => "left a walk that was never entered (or was left twice)"
  | pathRemains count =>
    "walk guard dropped while " ++ toString count ++ " fqn(s) were still on the path"
  | leftTooOften => "nesting counter left more levels than it entered"
  | depthRemains depth => "nesting counter dropped at depth " ++ toString depth

/-- How far a walk may go. -/
structure Limits where
  /-- Names that may be on the path at once. -/
  maxDepth : Nat
  /-- Attempts to enter a name, counted since the last reset. -/
  maxAttempts : Nat
  deriving DecidableEq, Repr, Inhabited

/-- Limits of a walk over interfaces. -/
def Limits.inheritance : Limits := ⟨256, 100000⟩

/-- Limits of a descent into nested references. -/
def Limits.nesting : Limits := ⟨64, 10000⟩

/-- The answer to an attempt to enter a name. -/
inductive Entry where
  | entered
  | cycle
  | depthExceeded
  | attemptsExceeded
  deriving DecidableEq, Repr, Inhabited

namespace Entry

/-- The attempt was refused by a limit. A cycle is no limit. -/
def isExceeded : Entry → Bool
  | depthExceeded | attemptsExceeded => true
  | _ => false

/-- The attempt was refused. -/
def isDenied : Entry → Bool
  | entered => false
  | _ => true

/-- The word for the answer. -/
def name : Entry → String
  | entered => "Entered"
  | cycle => "Cycle"
  | depthExceeded => "DepthExceeded"
  | attemptsExceeded => "IterationExceeded"

end Entry

/-- The state of a guarded walk. -/
structure Guard where
  limits : Limits
  /-- The names on the path, the deepest first. -/
  path : List String := []
  depth : Nat := 0
  attempts : Nat := 0
  /-- A limit has refused an attempt since the last reset. -/
  exceeded : Bool := false
  deriving DecidableEq, Repr, Inhabited

namespace Guard

/-- The number at which attempts stop being counted. -/
def attemptCeiling : Nat := Nat.pow 2 32 - 1

/-- Ask to enter a name. The caller has to leave it again if the answer
is `Entry.entered`, and must not otherwise. -/
def enter (g : Guard) (name : String) : Entry × Guard :=
  let g := { g with attempts := min (g.attempts + 1) attemptCeiling }
  if g.limits.maxAttempts < g.attempts then (.attemptsExceeded, { g with exceeded := true })
  else if g.limits.maxDepth ≤ g.depth then (.depthExceeded, { g with exceeded := true })
  else if name ∈ g.path then (.cycle, g)
  else (.entered, { g with path := name :: g.path, depth := g.depth + 1 })

/-- Leave a name on the path. -/
def leave (g : Guard) (name : String) : Except Misuse Guard :=
  if name ∈ g.path then
    .ok { g with path := g.path.erase name, depth := g.depth - 1 }
  else .error .leftUnentered

/-- Whether a name is on the path. -/
def isVisiting (g : Guard) (name : String) : Bool := name ∈ g.path

/-- Whether the walk stands below its start. -/
def isActive (g : Guard) : Bool := 0 < g.depth

/-- Forget everything but the limits. -/
def reset (g : Guard) : Guard := { limits := g.limits }

/-- Give the guard up. Nothing may be left on its path. -/
def drop (g : Guard) : Except Misuse Unit :=
  if g.path = [] then .ok () else .error (.pathRemains g.path.length)

/-- One use of a guard. A scope enters a name, does what is inside, and
leaves the name; when the name is refused nothing inside is done. -/
inductive Action where
  | enter (name : String)
  | leave (name : String)
  | visiting (name : String)
  | reset
  | scope (name : String) (body : List Action)
  deriving Repr, Inhabited

/-- What an action answers. -/
inductive Answer where
  | entry (e : Entry)
  | left
  | visiting (onPath : Bool)
  | cleared
  | scoped
  deriving DecidableEq, Repr, Inhabited

/-- A finished action: its answer, and the guard after it. -/
structure Step where
  answer : Answer
  guard : Guard
  deriving DecidableEq, Repr, Inhabited

mutual

/-- Do one action: the steps that were finished, and the guard, or the
mistake that ended it. The steps inside a scope come before the scope's
own. -/
def perform : Action → Guard → List Step × Except Misuse Guard
  | .enter name, g =>
    let (e, g) := g.enter name
    ([⟨.entry e, g⟩], .ok g)
  | .leave name, g =>
    match g.leave name with
    | .ok g => ([⟨.left, g⟩], .ok g)
    | .error m => ([], .error m)
  | .visiting name, g => ([⟨.visiting (g.isVisiting name), g⟩], .ok g)
  | .reset, g => ([⟨.cleared, g.reset⟩], .ok g.reset)
  | .scope name body, g =>
    match g.enter name with
    | (.entered, g) =>
      match performAll body g with
      | (steps, .error m) => (steps, .error m)
      | (steps, .ok g) =>
        match g.leave name with
        | .ok g => (steps ++ [⟨.scoped, g⟩], .ok g)
        | .error m => (steps, .error m)
    | (e, g) => ([⟨.entry e, g⟩], .ok g)

/-- Do one action after the other, up to the first mistake. -/
def performAll : List Action → Guard → List Step × Except Misuse Guard
  | [], g => ([], .ok g)
  | a :: rest, g =>
    match perform a g with
    | (steps, .error m) => (steps, .error m)
    | (steps, .ok g) =>
      let (more, result) := performAll rest g
      (steps ++ more, result)

end

/-- The guard after it was asked once more. -/
def asked (g : Guard) : Guard := { g with attempts := min (g.attempts + 1) attemptCeiling }

/-- The four answers to an attempt, each with its reason and with what
it does to the guard. -/
theorem enter_cases (g : Guard) (name : String) :
    (∃ e, e.isExceeded = true ∧ g.enter name = (e, { g.asked with exceeded := true })) ∨
    (name ∈ g.path ∧ g.enter name = (.cycle, g.asked)) ∨
    (name ∉ g.path ∧ g.depth < g.limits.maxDepth ∧
      g.enter name = (.entered, { g.asked with path := name :: g.path, depth := g.depth + 1 })) := by
  unfold enter
  dsimp only
  split
  · exact .inl ⟨.attemptsExceeded, rfl, rfl⟩
  · split
    · exact .inl ⟨.depthExceeded, rfl, rfl⟩
    · next hdepth =>
      split
      · next hpath => exact .inr (.inl ⟨hpath, rfl⟩)
      · next hpath => exact .inr (.inr ⟨hpath, Nat.lt_of_not_le hdepth, rfl⟩)

/-- Entering grants one level, or leaves path and depth alone. -/
theorem enter_entered {g g' : Guard} {name : String} (h : g.enter name = (.entered, g')) :
    name ∉ g.path ∧ g'.path = name :: g.path ∧ g'.depth = g.depth + 1 ∧
      g'.limits = g.limits ∧ g.depth < g.limits.maxDepth := by
  rcases enter_cases g name with ⟨e, he, h'⟩ | ⟨-, h'⟩ | ⟨hpath, hdepth, h'⟩ <;> rw [h] at h' <;>
    cases h'
  · cases he
  · exact ⟨hpath, rfl, rfl, rfl, hdepth⟩

theorem enter_denied {g g' : Guard} {name : String} {e : Entry} (h : g.enter name = (e, g'))
    (he : e ≠ .entered) :
    g'.path = g.path ∧ g'.depth = g.depth ∧ g'.limits = g.limits := by
  rcases enter_cases g name with ⟨e', -, h'⟩ | ⟨-, h'⟩ | ⟨-, -, h'⟩ <;> rw [h] at h' <;> cases h'
  · exact ⟨rfl, rfl, rfl⟩
  · exact ⟨rfl, rfl, rfl⟩
  · exact absurd rfl he

/-- The guard remembers that a limit refused an attempt. -/
theorem exceeded_enter {g g' : Guard} {name : String} {e : Entry} (h : g.enter name = (e, g')) :
    g'.exceeded = (g.exceeded || e.isExceeded) := by
  rcases enter_cases g name with ⟨e', he, h'⟩ | ⟨-, h'⟩ | ⟨-, -, h'⟩ <;> rw [h] at h' <;> cases h'
  · simp [he]
  · simp [Entry.isExceeded, asked]
  · simp [Entry.isExceeded, asked]

/-- Only a name on the path is refused as a cycle. -/
theorem mem_path_of_enter_cycle {g g' : Guard} {name : String}
    (h : g.enter name = (.cycle, g')) : name ∈ g.path := by
  rcases enter_cases g name with ⟨e, he, h'⟩ | ⟨hpath, -⟩ | ⟨-, -, h'⟩
  · rw [h] at h'
    cases h'
    cases he
  · exact hpath
  · rw [h] at h'
    cases h'

/-- The name on top of the path can be left, and what was below it is
there again. -/
theorem leave_top {g : Guard} {name : String} {path : List String} (h : g.path = name :: path) :
    g.leave name = .ok { g with path := path, depth := g.depth - 1 } := by
  simp [leave, h]

end Guard

end OverrideCheck
