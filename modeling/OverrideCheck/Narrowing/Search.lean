import OverrideCheck.Narrowing.Reason
import OverrideCheck.Walk.Counter
import OverrideCheck.World

/-!
# `OverrideCheck.Narrowing.Search`: is a name above an interface?

A `Checker` is what the comparison of two types carries with it, and
from one query to the next. This module has the checker and its search
through interfaces.

Above an interface lies a graph, and the search goes through it depth
first: `reaches` looks for a target among the names of a list and
behind them. It asks a `Guard` before it enters an interface. An
interface that was searched without success is not searched again for
the same target (`Checker.explored`), unless a limit has cut the
search somewhere in this query: then a failure proves nothing.

The checker is a value that a search takes and gives back. `reaches`
recurses on a number of levels that is one more than the guard can
grant, so it is the guard that ends a search, never that number.

Two parts of the checker belong to others: the array layers and the
chain of base classes. A search hands them through (`frames_lists`).
-/

set_option autoImplicit false

namespace OverrideCheck

/-- What a checker carries while it answers, and from one query to the
next. -/
structure Checker where
  /-- The guard of the search through interfaces. -/
  guard : Guard
  /-- How many array layers the comparison is inside of. -/
  nesting : Counter
  /-- The classes passed on the base chain that is followed, or was
  followed last, the latest first. -/
  chain : List String := []
  /-- Interfaces known not to lead to the current target. -/
  explored : List String := []
  /-- The reasons left by the current query, the latest first. -/
  trace : List Reason := []
  deriving DecidableEq, Repr, Inhabited

namespace Checker

/-- A checker that has not been asked anything. -/
def new : Checker where
  guard := { limits := .inheritance }
  nesting := .ofLimits .nesting

/-- An answer, and the checker afterwards. -/
abbrev Answer := Except Misuse (Bool × Checker)

/-- Leave a reason. -/
def note (c : Checker) (r : Reason) : Checker := { c with trace := r :: c.trace }

/-- Answer no, and leave the reason. -/
def refuse (c : Checker) (r : Reason) : Answer := .ok (false, c.note r)

/-- Ask for each name in turn until one is found. -/
def firstFound (visit : String → Checker → Answer) : List String → Checker → Answer
  | [], c => .ok (false, c)
  | name :: names, c => do
    let (found, c) ← visit name c
    if found then return (true, c) else firstFound visit names c

/-- Search above an interface, inside the guard: `search` looks through
the interfaces that it lists. -/
def above (search : List String → Checker → Answer) (i : InterfaceDef) (c : Checker) : Answer :=
  match c.guard.enter i.fqn with
  | (.entered, guard) => do
    let (found, c) ← search i.interfaces { c with guard }
    let guard ← c.guard.leave i.fqn
    -- A failure counts as explored only if no limit cut anything.
    if found || guard.exceeded then return (found, { c with guard })
    else return (false, { c with guard, explored := i.fqn :: c.explored })
  | (.cycle, guard) => { c with guard }.refuse (.inheritanceCycle i.fqn)
  | (_, guard) => { c with guard }.refuse (.walkLimitExceeded (.named i.fqn))

/-- Whether a listed name is the target or leads to it. -/
def leadsTo (w : World) (target : String) (search : List String → Checker → Answer)
    (name : String) (c : Checker) : Answer :=
  if name = target then .ok (true, c)
  else if name ∈ c.explored then .ok (false, c)
  else
    match w.resolve name with
    | some (.interface i) => above search i c
    | some _ => .ok (false, c)
    | none => c.refuse (.unresolvedType name)

/-- Whether the target is among the names of a list or above one of
them, with at most this many levels of lists below one another. -/
def reaches (w : World) (target : String) : Nat → List String → Checker → Answer
  | 0, _, c => .ok (false, c)
  | levels + 1, names, c => firstFound (leadsTo w target (reaches w target levels)) names c

/-- More levels than the guard grants: it admits `maxDepth` interfaces
at once, and the list of the last one is looked through as well. -/
def levels (c : Checker) : Nat := c.guard.limits.maxDepth + 1

/-- Whether the target is among the names of a list or above one of
them. -/
def lists (w : World) (target : String) (names : List String) (c : Checker) : Answer :=
  reaches w target c.levels names c

/-- Whether the target is above an interface. -/
def interfaceExtends (w : World) (target : String) (i : InterfaceDef) (c : Checker) : Answer :=
  above (reaches w target c.levels) i c

/-! ### What a search hands through -/

/-- The checker with other array layers and another chain of classes. -/
def aside (c : Checker) (nesting : Counter) (chain : List String) : Checker :=
  { c with nesting, chain }

/-- An answer with other array layers and another chain of classes. -/
def Answer.aside (answer : Answer) (nesting : Counter) (chain : List String) : Answer :=
  answer.map fun (found, c) => (found, c.aside nesting chain)

/-- The step hands the array layers and the chain of classes through:
with others it does the same, and those come out. -/
def Frames (step : Checker → Answer) : Prop :=
  ∀ c nesting chain, step (c.aside nesting chain) = (step c).aside nesting chain

namespace Frames

variable {step : Checker → Answer} {c c' : Checker} {found : Bool}

/-- What is handed through is the same afterwards. -/
theorem aside_eq (h : Frames step) (hrun : step c = .ok (found, c')) :
    c'.aside c.nesting c.chain = c' := by
  have hframed : step c = (step c).aside c.nesting c.chain := h c c.nesting c.chain
  rw [hrun] at hframed
  exact (Prod.mk.inj (Except.ok.inj hframed)).2.symm

theorem chain_eq (h : Frames step) (hrun : step c = .ok (found, c')) : c'.chain = c.chain := by
  rw [← h.aside_eq hrun]
  rfl

theorem nesting_eq (h : Frames step) (hrun : step c = .ok (found, c')) :
    c'.nesting = c.nesting := by
  rw [← h.aside_eq hrun]
  rfl

/-- The run with another chain of classes. -/
theorem run_chain (h : Frames step) (hrun : step c = .ok (found, c')) (chain : List String) :
    step { c with chain } = .ok (found, { c' with chain }) := by
  have hframed : step { c with chain } = (step c).aside c.nesting chain := h c c.nesting chain
  rw [hframed, hrun, ← h.nesting_eq hrun]
  rfl

/-- The run inside of other array layers. -/
theorem run_nesting (h : Frames step) (hrun : step c = .ok (found, c')) (nesting : Counter) :
    step { c with nesting } = .ok (found, { c' with nesting }) := by
  have hframed : step { c with nesting } = (step c).aside nesting c.chain := h c nesting c.chain
  rw [hframed, hrun, ← h.chain_eq hrun]
  rfl

end Frames

theorem frames_ok (found : Bool) : Frames fun c => .ok (found, c) :=
  fun _ _ _ => rfl

theorem frames_firstFound {visit : String → Checker → Answer} (h : ∀ name, Frames (visit name)) :
    ∀ names, Frames (firstFound visit names)
  | [] => frames_ok false
  | name :: names => fun c nesting chain => by
    simp only [firstFound, h name c nesting chain]
    rcases visit name c with m | ⟨found, c₁⟩
    · rfl
    · cases found with
      | true => rfl
      | false => exact frames_firstFound h names c₁ nesting chain

theorem frames_above {search : List String → Checker → Answer}
    (h : ∀ names, Frames (search names)) (i : InterfaceDef) : Frames (above search i) := by
  intro c nesting chain
  have hguard : (c.aside nesting chain).guard = c.guard := rfl
  simp only [above, hguard]
  rcases c.guard.enter i.fqn with ⟨e, guard⟩
  cases e with
  | entered =>
    have hinner : search i.interfaces { c.aside nesting chain with guard } =
        (search i.interfaces { c with guard }).aside nesting chain :=
      h i.interfaces { c with guard } nesting chain
    simp only [hinner]
    rcases search i.interfaces { c with guard } with m | ⟨found, c₁⟩
    · rfl
    · simp only [Answer.aside, Except.map, bind, Except.bind]
      have hguard₁ : (c₁.aside nesting chain).guard = c₁.guard := rfl
      rw [hguard₁]
      rcases c₁.guard.leave i.fqn with m | guard₁
      · rfl
      · dsimp only
        cases found || guard₁.exceeded <;> rfl
  | cycle | depthExceeded | attemptsExceeded => rfl

theorem frames_leadsTo (w : World) (target : String) {search : List String → Checker → Answer}
    (h : ∀ names, Frames (search names)) (name : String) :
    Frames (leadsTo w target search name) := by
  intro c nesting chain
  have hexplored : (c.aside nesting chain).explored = c.explored := rfl
  simp only [leadsTo, hexplored]
  split
  · rfl
  · split
    · rfl
    · split
      · exact frames_above h _ c nesting chain
      · rfl
      · rfl

theorem frames_reaches (w : World) (target : String) :
    ∀ levels names, Frames (reaches w target levels names)
  | 0, _ => frames_ok false
  | levels + 1, names =>
    frames_firstFound (frames_leadsTo w target (frames_reaches w target levels)) names

theorem frames_lists (w : World) (target : String) (names : List String) :
    Frames (lists w target names) :=
  fun c => frames_reaches w target c.levels names c

theorem frames_interfaceExtends (w : World) (target : String) (i : InterfaceDef) :
    Frames (interfaceExtends w target i) :=
  fun c => frames_above (frames_reaches w target c.levels) i c

end Checker

end OverrideCheck
