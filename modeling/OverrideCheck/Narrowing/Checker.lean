import OverrideCheck.Lineage
import OverrideCheck.Narrowing.Search

/-!
# `OverrideCheck.Narrowing.Checker`: may one type stand in for another?

A checker answers whether a type may replace another where a member is
overridden. The rules are tried in this order: void matches only void;
a malformed reference matches nothing; equal references match; arrays
are compared by their elements; maps, unions, intersections and
primitives match nothing but themselves; two names are compared by
inheritance. What cannot be resolved is refused.

Inheritance is followed in two ways. Above an interface the checker
searches. Above a class it follows the base chain, class by class, and
looks at each of them: `follow`. The classes that it has passed are in
the checker (`Checker.chain`), and meeting one of them again is a cycle.
They stay there when the chain ends, and are cleared when the next one
starts. Like a `Lineage`, a chain ends because the world is finite
(`World.untried_lt`).
-/

set_option autoImplicit false

namespace OverrideCheck

/-- How many definitions of the world have a name that was not passed,
and one for a class that is to be passed next and is not among them. -/
def World.untried (w : World) (passed : List String) (k : ClassDef) : Nat :=
  w.unseen passed + if .class k ∈ w.definitions then 0 else 1

/-- Going on to a class of the world leaves fewer. -/
theorem World.untried_lt {w : World} {passed : List String} {k parent : ClassDef} {base : String}
    (hnew : k.fqn ∉ passed) (hbase : w.resolve base = some (.class parent)) :
    w.untried (k.fqn :: passed) parent < w.untried passed k := by
  unfold untried
  rw [if_pos (w.mem_of_resolve hbase)]
  split
  · next hmem => exact unseen_lt hmem hnew
  · exact Nat.lt_succ_of_le (countP_unseen_le passed k.fqn w.definitions)

namespace Checker

/-- What is looked for at each class of a base chain. -/
@[ext]
structure Visit where
  look : ClassDef → Checker → Answer
  /-- The classes passed are not looked at, and stay as they are. -/
  frames : ∀ k, Frames (look k)

/-- Count a class among those passed. -/
def pass (k : ClassDef) (c : Checker) : Checker := { c with chain := k.fqn :: c.chain }

/-- Look at a class and then at those above it, until something is
found or the chain ends. -/
def follow (w : World) (visit : Visit) (k : ClassDef) (c : Checker) : Answer :=
  if _new : k.fqn ∈ c.chain then c.refuse (.inheritanceCycle k.fqn)
  else
    match _looked : visit.look k (c.pass k) with
    | .error misuse => .error misuse
    | .ok (true, c) => .ok (true, c)
    | .ok (false, c₁) =>
      match k.base with
      | none => .ok (false, c₁)
      | some base =>
        match _found : w.resolve base with
        | some (.class parent) => follow w visit parent c₁
        | some _ => .ok (false, c₁)
        | none => c₁.refuse (.unresolvedType base)
termination_by w.untried c.chain k
decreasing_by
  rw [(visit.frames k).chain_eq _looked]
  exact World.untried_lt _new _found

/-- Whether the base of a class is the target. -/
def baseVisit (target : String) : Visit where
  look k c := .ok (k.base = some target, c)
  frames _ _ _ _ := rfl

/-- Whether the target is above the interfaces of a class. -/
def interfaceVisit (w : World) (target : String) : Visit where
  look k := lists w target k.interfaces
  frames k := frames_lists w target k.interfaces

/-- Follow a base chain from its start. -/
def followFrom (w : World) (visit : Visit) (k : ClassDef) (c : Checker) : Answer :=
  follow w visit k { c with chain := [] }

/-- Whether the target is the base of a class or of one above it. -/
def classExtends (w : World) (target : String) (k : ClassDef) (c : Checker) : Answer :=
  followFrom w (baseVisit target) k c

/-- Whether the target is above the interfaces of a class or of one
above it. -/
def classImplements (w : World) (target : String) (k : ClassDef) (c : Checker) : Answer :=
  followFrom w (interfaceVisit w target) k c

/-- Answer as found, and leave the reason if it was not. -/
def settle (reason : Reason) : Bool × Checker → Bool × Checker
  | (true, c) => (true, c)
  | (false, c) => (false, c.note reason)

/-- Compare two names by inheritance. A name is compared with what the
other's definition lists, so `sup` has to be the listed name itself. -/
def checkNamed (w : World) (sub sup : String) (c : Checker) : Answer :=
  let c := { c with explored := [] }
  match w.resolve sub with
  | none => c.refuse (.unresolvedType sub)
  | some subDef =>
    match w.resolve sup with
    | none => c.refuse (.unresolvedType sup)
    | some supDef =>
      match subDef, supDef with
      | .class k, .class _ => (classExtends w sup k c).map (settle (.notASubclass sub sup))
      | .interface i, .interface _ =>
        (interfaceExtends w sup i c).map (settle (.interfaceNotExtended sub sup))
      | .class k, .interface _ =>
        (classImplements w sup k c).map (settle (.interfaceNotImplemented sub sup))
      | subDef, supDef => c.refuse (.kindMismatch sub subDef.kind sup supDef.kind)

/-- The rule that refuses two different references which are neither
two arrays nor two names: the first of the four kinds that one of them
is, and else that an array is compared with a name. -/
def shapeRefusal (sub sup : TypeRef) : Reason :=
  let either (p : TypeRef → Bool) : Bool := p sub || p sup
  if either (·.mapElement?.isSome) then .mapInvariant sub sup
  else if either (·.isUnion) then .unionNotNarrowable sub sup
  else if either (·.isIntersection) then .intersectionNotCovariant sub sup
  else if either (·.primitive?.isSome) then .primitiveNotNarrowable sub sup
  else .shapeMismatch sub sup

/-- Compare two well formed references. -/
def checkRef (w : World) (sub sup : TypeRef) (c : Checker) : Answer :=
  if sub = sup then .ok (true, c)
  else
    match sub, sup with
    | .collection .array a, .collection .array b =>
      match c.nesting.enter with
      | (false, nesting) => { c with nesting }.refuse (.walkLimitExceeded (.array a))
      | (true, nesting) => do
        let (allowed, c) ← checkRef w a b { c with nesting }
        let nesting ← c.nesting.leave
        return settle (.arrayElementMismatch a b) (allowed, { c with nesting })
    | .named a, .named b => checkNamed w a b c
    | sub, sup => c.refuse (shapeRefusal sub sup)

/-- Answer a query. The guard starts afresh with every query. -/
def check (w : World) (sub sup : Option TypeRef) (c : Checker) : Answer :=
  let c := { c with trace := [] }
  match sub, sup with
  | none, none => .ok (true, c)
  | none, some _ => c.refuse (.voidMismatch .subtype)
  | some _, none => c.refuse (.voidMismatch .supertype)
  | some sub, some sup =>
    if !sub.wellFormed then c.refuse (.malformedType sub)
    else if !sup.wellFormed then c.refuse (.malformedType sup)
    else checkRef w sub sup { c with guard := c.guard.reset }

end Checker

end OverrideCheck
