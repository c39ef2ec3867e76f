import OverrideCheck.Proofs.InterfaceChain
import OverrideCheck.Proofs.Narrowing.Layers

/-!
# `OverrideCheck.Proofs.Narrowing.Attempts`: how often the guard is asked

There may be exponentially many ways through a graph of interfaces, and
a search that went them all would run into its limits on harmless
graphs. This module shows that a query asks the guard for every
interface once at most, if the graph has no cycle and is not too deep
(`World.WithinLimits`). So the number of attempts is bounded by the
number of interfaces, and no limit is hit.

The guard only counts. For which names it is asked is said by
`Checker.questions` and the functions before it, one for each function
of the checker: they follow the same run and list the names in their
order.

Two facts carry the induction. Before a search (`Tally`), the attempts
so far are exactly the interfaces on the path and the explored ones,
and all of these are different. After it (`Walked`), the names that it
has asked for are new, and if it has failed all of them are explored. So
the next search skips them, wherever it meets them again. Where the
tally holds, an interface that is not explored is always entered
(`Tally.enter`): it is not on the path since there are no cycles, the
path with it is a chain, and it is one more interface beside those
that were counted.
-/

set_option autoImplicit false

namespace OverrideCheck

open Relation (TransGen)

/-- A world in which no limit stands in the way of a search: definitions
are found under their own names, interfaces form no cycle, and neither
their chains nor their number go beyond what the guard grants. -/
structure World.WithinLimits (w : World) : Prop where
  keyed : w.WellKeyed
  acyclic : ∀ x, ¬ TransGen w.InterfaceEdge x x
  chains : ∀ chain : List String, chain.IsChain w.InterfaceEdge →
    (∀ x ∈ chain, w.IsInterface x) → chain.length ≤ 256
  count : w.interfaceNames.length ≤ 100000

/-- Each name is listed by the one after it, as on the path of a walk,
which has the deepest name first. -/
def World.LeadsDown (w : World) (path : List String) : Prop :=
  path.IsChain fun x y => w.InterfaceEdge y x

theorem World.LeadsDown.nodup {w : World} (hacyclic : ∀ x, ¬ TransGen w.InterfaceEdge x x)
    {path : List String} (h : w.LeadsDown path) : path.Nodup :=
  List.nodup_reverse.1 (World.nodup_of_isChain hacyclic (List.isChain_reverse.2 h))

namespace Checker

/-- The names that the guard is asked for by one item after the other,
up to the first that is found. -/
def questionsInTurn {α : Type} (visit : α → Checker → Answer) (asked : α → Checker → List String) :
    List α → Checker → List String
  | [], _ => []
  | x :: xs, c =>
    asked x c ++
      match visit x c with
      | .ok (false, c) => questionsInTurn visit asked xs c
      | _ => []

/-- The names that the guard is asked for by a search above an
interface: its own, and if it is entered those of the search inside. -/
def questionsAbove (asked : List String → Checker → List String) (i : InterfaceDef) (c : Checker) :
    List String :=
  i.fqn ::
    match c.guard.enter i.fqn with
    | (.entered, guard) => asked i.interfaces { c with guard }
    | _ => []

/-- The names that the guard is asked for on behalf of a listed name. -/
def questionsFor (w : World) (target : String) (asked : List String → Checker → List String)
    (name : String) (c : Checker) : List String :=
  if name = target ∨ name ∈ c.explored then []
  else
    match w.resolve name with
    | some (.interface i) => questionsAbove asked i c
    | _ => []

/-- The names that the guard is asked for by a search through a list,
with at most this many levels. -/
def questionsIn (w : World) (target : String) : Nat → List String → Checker → List String
  | 0, _, _ => []
  | levels + 1, names, c =>
    questionsInTurn (leadsTo w target (reaches w target levels))
      (questionsFor w target (questionsIn w target levels)) names c

/-- The names that the guard is asked for when two names are compared. -/
def questionsOfNames (w : World) (s t : String) (c : Checker) : List String :=
  let c := { c with explored := [] }
  match w.resolve s, w.resolve t with
  | some (.interface i), some (.interface _) => questionsAbove (questionsIn w t c.levels) i c
  | some (.class k), some (.interface _) =>
    questionsInTurn (fun k => lists w t k.interfaces)
      (fun k c => questionsIn w t c.levels k.interfaces c) (k :: (w.lineage k).bases) c
  | _, _ => []

/-- The names that the guard is asked for when two references are
compared. -/
def questionsOfRefs (w : World) (sub sup : TypeRef) (c : Checker) : List String :=
  if sub = sup then []
  else
    match sub, sup with
    | .collection .array a, .collection .array b =>
      match c.nesting.enter with
      | (false, _) => []
      | (true, nesting) => questionsOfRefs w a b { c with nesting }
    | .named s, .named t => questionsOfNames w s t c
    | _, _ => []

/-- The names that the guard is asked for during a query, in their
order. -/
def questions (w : World) (sub sup : Option TypeRef) (c : Checker) : List String :=
  match sub, sup with
  | some sub, some sup =>
    if !sub.wellFormed then []
    else if !sup.wellFormed then []
    else questionsOfRefs w sub sup { c with trace := [], guard := c.guard.reset }
  | _, _ => []

variable {w : World} {target : String}

/-- The books are in order before a search. No limit was hit, and the
attempts so far are the interfaces on the path and those explored, each
counted once. -/
structure Tally (w : World) (c : Checker) : Prop where
  limits : c.guard.limits = .inheritance
  depth : c.guard.depth = c.guard.path.length
  within : c.guard.path.length ≤ Limits.inheritance.maxDepth
  exceeded : c.guard.exceeded = false
  attempts : c.guard.attempts = (c.guard.path ++ c.explored).length
  nodup : (c.guard.path ++ c.explored).Nodup
  interfaces : ∀ x ∈ c.guard.path ++ c.explored, w.IsInterface x

/-- What a search has done that asked for these names. They are
interfaces that were neither on the path nor explored before, each was
one attempt, and no limit was hit. If the search was in vain, they are
explored now. -/
structure Walked (w : World) (c : Checker) (asked : List String) (found : Bool) (c' : Checker) :
    Prop where
  fresh : (asked ++ (c.guard.path ++ c.explored)).Nodup
  interfaces : ∀ x ∈ asked, w.IsInterface x
  attempts : c'.guard.attempts = c.guard.attempts + asked.length
  exceeded : c'.guard.exceeded = false
  explored : found = false → c'.explored.Perm (asked ++ c.explored)
  reasons : ∀ place, .walkLimitExceeded place ∈ c'.trace → .walkLimitExceeded place ∈ c.trace

/-- Nothing was asked. -/
theorem Tally.walked_nil {c : Checker} (h : Tally w c) (found : Bool) : Walked w c [] found c where
  fresh := h.nodup
  interfaces := by simp
  attempts := rfl
  exceeded := h.exceeded
  explored _ := .refl _
  reasons _ := id

/-- A reason of another kind is left afterwards. -/
theorem Walked.note {c c' : Checker} {asked : List String} {found : Bool}
    (h : Walked w c asked found c') {r : Reason} (hr : ∀ place, r ≠ .walkLimitExceeded place) :
    Walked w c asked found (c'.note r) where
  fresh := h.fresh
  interfaces := h.interfaces
  attempts := h.attempts
  exceeded := h.exceeded
  explored := h.explored
  reasons place hmem := by
    rcases List.mem_cons.1 hmem with heq | hmem
    · exact absurd heq.symm (hr place)
    · exact h.reasons place hmem

/-- After a search in vain the names asked for are counted as
explored. -/
theorem Walked.perm_counted {c c' : Checker} {asked : List String} (h : Walked w c asked false c')
    (same : SamePlace c c') :
    (c'.guard.path ++ c'.explored).Perm (asked ++ (c.guard.path ++ c.explored)) := by
  rw [same.path]
  exact ((h.explored rfl).append_left _).trans (List.perm_append_comm_assoc _ _ _)

/-- After a search in vain the books are in order again. -/
theorem Walked.tally {c c' : Checker} {asked : List String} (h : Walked w c asked false c')
    (hc : Tally w c) (same : SamePlace c c') : Tally w c' where
  limits := same.limits.trans hc.limits
  depth := by rw [same.depth, same.path, hc.depth]
  within := by
    rw [same.path]
    exact hc.within
  exceeded := h.exceeded
  attempts := by
    rw [h.attempts, hc.attempts, (h.perm_counted same).length_eq, Nat.add_comm]
    exact List.length_append.symm
  nodup := (h.perm_counted same).nodup_iff.2 h.fresh
  interfaces x hx := by
    rcases List.mem_append.1 ((h.perm_counted same).mem_iff.1 hx) with hx | hx
    · exact h.interfaces x hx
    · exact hc.interfaces x hx

/-- One search after another that was in vain. -/
theorem Walked.append {c c₁ c' : Checker} {asked more : List String} {found : Bool}
    (first : Walked w c asked false c₁) (same : SamePlace c c₁)
    (rest : Walked w c₁ more found c') : Walked w c (asked ++ more) found c' where
  fresh := by
    -- What the first search asked for is explored by then, so the second
    -- one has asked for none of it.
    have hperm := (first.perm_counted same).append_left more
    rw [List.append_assoc]
    exact (hperm.trans (List.perm_append_comm_assoc _ _ _)).nodup_iff.1 rest.fresh
  interfaces x hx := (List.mem_append.1 hx).elim (first.interfaces x) (rest.interfaces x)
  attempts := by rw [rest.attempts, first.attempts, List.length_append, Nat.add_assoc]
  exceeded := rest.exceeded
  explored hfound := by
    have hperm := (rest.explored hfound).trans ((first.explored rfl).append_left more)
    rw [List.append_assoc]
    exact hperm.trans (List.perm_append_comm_assoc _ _ _)
  reasons place hmem := first.reasons place (rest.reasons place hmem)

/-- Where the books are in order, an interface that is not explored and
to which the path leads is entered, and inside the books are in order. -/
theorem Tally.enter (hw : w.WithinLimits) {c : Checker} (h : Tally w c) {name : String}
    {i : InterfaceDef} (hsome : w.resolve name = some (.interface i)) (hnew : name ∉ c.explored)
    (hway : w.LeadsDown (name :: c.guard.path)) :
    ∃ guard, c.guard.enter i.fqn = (.entered, guard) ∧ guard.path = name :: c.guard.path ∧
      guard.attempts = c.guard.attempts + 1 ∧ Tally w { c with guard } := by
  have hkey : i.fqn = name := hw.keyed name (.interface i) hsome
  have hpath : name ∉ c.guard.path := (List.nodup_cons.1 (hway.nodup hw.acyclic)).1
  have hnodup : (name :: (c.guard.path ++ c.explored)).Nodup :=
    List.nodup_cons.2 ⟨List.not_mem_append hpath hnew, h.nodup⟩
  have hinterfaces : ∀ x ∈ name :: (c.guard.path ++ c.explored), w.IsInterface x :=
    List.forall_mem_cons.2 ⟨⟨i, hsome⟩, h.interfaces⟩
  -- The path with the name is a chain, and with what is explored it is
  -- still no more than all interfaces.
  have hdepth : (name :: c.guard.path).length ≤ 256 := by
    rw [← List.length_reverse]
    refine hw.chains _ (List.isChain_reverse.2 hway) fun x hx => hinterfaces x ?_
    rcases List.mem_cons.1 (List.mem_reverse.1 hx) with rfl | hx
    · exact List.mem_cons_self
    · exact List.mem_cons_of_mem _ (List.mem_append_left _ hx)
  have hattempts := (World.length_le_interfaceNames hw.keyed hnodup hinterfaces).trans hw.count
  rw [List.length_cons, ← h.attempts] at hattempts
  rw [List.length_cons, ← h.depth] at hdepth
  -- This far below the ceiling the count is exact.
  have hceiling : min (c.guard.attempts + 1) Guard.attemptCeiling = c.guard.attempts + 1 :=
    Nat.min_eq_left (hattempts.trans (by decide))
  rw [hkey]
  refine ⟨_, Guard.enter_of_granted ?_ ?_ hpath, rfl, hceiling, ?_⟩
  · rw [h.limits]
    exact hattempts
  · rw [h.limits]
    exact hdepth
  · exact {
      limits := h.limits
      depth := congrArg (· + 1) h.depth
      within := by
        rw [h.depth] at hdepth
        exact hdepth
      exceeded := h.exceeded
      attempts := hceiling.trans (congrArg (· + 1) h.attempts)
      nodup := hnodup
      interfaces := hinterfaces }

/-- Back from above an interface, its own name comes before those asked
for inside. -/
theorem Walked.retreat {c c₁ : Checker} {guard : Guard} {name : String} {asked : List String}
    {found : Bool} (hpath : guard.path = name :: c.guard.path)
    (hattempts : guard.attempts = c.guard.attempts + 1) (hname : w.IsInterface name)
    (inner : Walked w { c with guard } asked found c₁) :
    Walked w c (name :: asked) found (c₁.retreat c.guard name found) where
  fresh := by
    have hinner : (asked ++ (guard.path ++ c.explored)).Nodup := inner.fresh
    rw [hpath] at hinner
    exact List.perm_middle.nodup_iff.1 hinner
  interfaces := List.forall_mem_cons.2 ⟨hname, inner.interfaces⟩
  attempts := by
    have hinner : c₁.guard.attempts = guard.attempts + asked.length := inner.attempts
    rw [hattempts] at hinner
    show c₁.guard.attempts = c.guard.attempts + (asked.length + 1)
    omega
  exceeded := inner.exceeded
  explored := by
    rintro rfl
    simp only [Checker.retreat, inner.exceeded, Bool.or_self, Bool.false_eq_true, if_false]
    exact (inner.explored rfl).cons name
  reasons := inner.reasons

/-- A step asks for these names, wherever it starts on this path with
the books in order. -/
def Accounts (w : World) (path : List String) (step : Checker → Answer)
    (asked : Checker → List String) : Prop :=
  ∀ {c c' : Checker} {found : Bool}, c.guard.path = path → Tally w c →
    step c = .ok (found, c') → Walked w c (asked c) found c'

/-- A run takes one item after the other, up to the first that is
found. -/
structure TakesTurns {α : Type} (run : List α → Checker → Answer) (visit : α → Checker → Answer) :
    Prop where
  nil (c : Checker) : run [] c = .ok (false, c)
  cons (x : α) (xs : List α) (c : Checker) :
    run (x :: xs) c = do
      let (found, c) ← visit x c
      if found then return (true, c) else run xs c

theorem takesTurns_firstFound (visit : String → Checker → Answer) :
    TakesTurns (firstFound visit) visit :=
  ⟨fun _ => rfl, fun _ _ _ => rfl⟩

theorem takesTurns_anyLists (w : World) (target : String) :
    TakesTurns (anyLists w target) fun k => lists w target k.interfaces :=
  ⟨fun _ => rfl, fun _ _ _ => rfl⟩

/-- What is asked for by one item after the other. After an item in vain
the books are in order for the next one. -/
theorem accounts_inTurn {α : Type} {run : List α → Checker → Answer} {visit : α → Checker → Answer}
    {asked : α → Checker → List String} {path : List String} (hrun : TakesTurns run visit)
    (hreturns : ∀ x, Returns (visit x)) :
    ∀ xs : List α, (∀ x ∈ xs, Accounts w path (visit x) (asked x)) →
      Accounts w path (run xs) (questionsInTurn visit asked xs)
  | [], _, c, c', found, hpath, hc, h => by
    rw [hrun.nil] at h
    cases h
    exact hc.walked_nil false
  | x :: xs, hvisit, c, c', found, hpath, hc, h => by
    obtain ⟨hx, hxs⟩ := List.forall_mem_cons.1 hvisit
    obtain ⟨found₁, c₁, hfirst, same⟩ := hreturns x c
    have first := hx hpath hc hfirst
    rw [hrun.cons, hfirst] at h
    rw [questionsInTurn, hfirst]
    cases found₁ with
    | true =>
      -- The rest of the items is not looked at.
      cases h
      rw [List.append_nil]
      exact first
    | false =>
      have rest := accounts_inTurn hrun hreturns xs hxs (same.path.trans hpath)
        (first.tally hc same) h
      exact first.append same rest

/-- A search above an interface that is not explored asks for its name
and for those of the search inside. -/
theorem walked_above (hw : w.WithinLimits) {search : List String → Checker → Answer}
    {asked : List String → Checker → List String} (hsearch : ∀ names, Returns (search names))
    {name : String} {i : InterfaceDef} (hsome : w.resolve name = some (.interface i))
    {c c' : Checker} {found : Bool} (hc : Tally w c) (hnew : name ∉ c.explored)
    (hway : w.LeadsDown (name :: c.guard.path))
    (hinner : Accounts w (name :: c.guard.path) (search i.interfaces) (asked i.interfaces))
    (h : above search i c = .ok (found, c')) : Walked w c (questionsAbove asked i c) found c' := by
  have hkey : i.fqn = name := hw.keyed name (.interface i) hsome
  obtain ⟨guard, henter, hpath, hattempts, inside⟩ := hc.enter hw hsome hnew hway
  unfold questionsAbove
  rw [henter]
  -- The guard grants the name, so neither a cycle nor a limit ends the run.
  rcases above_cases hsearch h with
    ⟨_, henter', -, -⟩ | ⟨e, _, henter', he, -, -⟩ | ⟨_, c₁, henter', hrun, rfl⟩ <;>
    cases henter.symm.trans henter'
  · cases he
  · rw [hkey]
    exact (hinner hpath inside hrun).retreat hpath hattempts ⟨i, hsome⟩

/-- On behalf of a listed name the guard is asked only if it stands for
an interface that is not explored. -/
theorem accounts_leadsTo (hw : w.WithinLimits) {search : List String → Checker → Answer}
    {asked : List String → Checker → List String} (hsearch : ∀ names, Returns (search names))
    {path : List String} {name : String} (hway : w.LeadsDown (name :: path))
    (hinner : ∀ i, w.resolve name = some (.interface i) →
      Accounts w (name :: path) (search i.interfaces) (asked i.interfaces)) :
    Accounts w path (leadsTo w target search name) (questionsFor w target asked name) := by
  intro c c' found hpath hc h
  subst hpath
  unfold leadsTo at h
  unfold questionsFor
  split at h
  · next heq =>
    cases h
    rw [if_pos (.inl heq)]
    exact hc.walked_nil true
  · next hne =>
    split at h
    · next hknown =>
      cases h
      rw [if_pos (.inr hknown)]
      exact hc.walked_nil false
    · next hnew =>
      rw [if_neg (not_or.2 ⟨hne, hnew⟩)]
      split at h
      · next i hsome =>
        rw [hsome]
        exact walked_above hw hsearch hsome hc hnew hway (hinner i hsome) h
      · next d hkind hsome =>
        cases h
        split
        · next i hsome' => exact absurd (Option.some.inj (hsome.symm.trans hsome')) (hkind i)
        · exact hc.walked_nil false
      · next hnone =>
        cases h
        rw [hnone]
        exact (hc.walked_nil false).note nofun

/-- What a search through a list asks for, with as many levels as the
guard can still grant. -/
theorem accounts_reaches (hw : w.WithinLimits) (target : String) :
    ∀ (levels : Nat) {names path : List String},
      Limits.inheritance.maxDepth < path.length + levels →
      (∀ x ∈ names, w.LeadsDown (x :: path)) →
      Accounts w path (reaches w target levels names) (questionsIn w target levels names)
  | 0, names, path, hlevels, _ => by
    -- The path of a search is never that long.
    intro hpath hc _
    have hwithin := hc.within
    rw [hpath] at hwithin
    omega
  | levels + 1, names, path, hlevels, hway => by
    refine accounts_inTurn (takesTurns_firstFound _)
      (returns_leadsTo w target (returns_reaches w target levels)) names fun x hx => ?_
    refine accounts_leadsTo hw (returns_reaches w target levels) (hway x hx) fun i hsome => ?_
    refine accounts_reaches hw target levels ?_ fun y hy => ?_
    · rw [List.length_cons]
      omega
    · exact List.isChain_cons_cons.2 ⟨⟨i, hsome, hy⟩, hway x hx⟩

/-- There are more levels than the guard can grant. -/
theorem Tally.lt_levels {c : Checker} (h : Tally w c) (path : List String) :
    Limits.inheritance.maxDepth < path.length + c.levels := by
  rw [levels, h.limits]
  exact Nat.lt_add_left _ (Nat.lt_succ_self _)

/-- The same from the start of a query, where the path is empty. -/
theorem accounts_lists (hw : w.WithinLimits) (target : String) (names : List String) :
    Accounts w [] (lists w target names) fun c => questionsIn w target c.levels names c := by
  intro c c' found hpath hc h
  exact accounts_reaches hw target c.levels (hc.lt_levels []) (fun x _ => List.isChain_singleton x)
    hpath hc h

/-- A reason of another kind is added to a failure. -/
theorem Walked.settle {c : Checker} {asked : List String} {answer : Bool × Checker}
    (h : Walked w c asked answer.1 answer.2) {r : Reason}
    (hr : ∀ place, r ≠ .walkLimitExceeded place) :
    Walked w c asked (settle r answer).1 (settle r answer).2 := by
  rcases answer with ⟨found, c'⟩
  cases found with
  | true => exact h
  | false => exact h.note hr

theorem Walked.noteEnding {c c' : Checker} {asked : List String} {found : Bool}
    (h : Walked w c asked found c') (e : ChainEnd) : Walked w c asked found (c'.noteEnding e) := by
  cases e with
  | root | nonClass _ => exact h
  | unresolved _ | cycle _ => exact h.note nofun

/-- The classes passed are no part of the books. -/
theorem Walked.chain {c c' : Checker} {asked : List String} {found : Bool}
    (h : Walked w c asked found c') (chain : List String) :
    Walked w c asked found { c' with chain } :=
  ⟨h.fresh, h.interfaces, h.attempts, h.exceeded, h.explored, h.reasons⟩

/-- What the classes of a lineage ask for, one after the other. -/
theorem walked_classImplements (hw : w.WithinLimits) {k : ClassDef} {c c' : Checker} {found : Bool}
    (hpath : c.guard.path = []) (hc : Tally w c)
    (h : classImplements w target k c = .ok (found, c')) :
    Walked w c (questionsInTurn (fun k => lists w target k.interfaces)
      (fun k c => questionsIn w target c.levels k.interfaces c) (k :: (w.lineage k).bases) c)
      found c' := by
  obtain ⟨found₁, c₁, chain, hlists, hrun⟩ := exists_classImplements_eq w target k c
  have walked := accounts_inTurn (takesTurns_anyLists w target)
    (fun k => returns_lists w target k.interfaces) _
    (fun k _ => accounts_lists hw target k.interfaces) hpath hc hlists
  cases h.symm.trans hrun
  cases found with
  | true => exact walked.chain chain
  | false => exact (walked.noteEnding _).chain chain

/-- The base chain of a class is followed without the guard. -/
theorem walked_classExtends {k : ClassDef} {c c' : Checker} {found : Bool} (hc : Tally w c)
    (h : classExtends w target k c = .ok (found, c')) : Walked w c [] found c' := by
  obtain ⟨chain, hrun⟩ := exists_classExtends_eq w target k c
  rw [hrun] at h
  unfold lineageExtends at h
  split at h <;> cases h
  · exact (hc.walked_nil true).chain chain
  · exact ((hc.walked_nil false).chain chain).noteEnding _

/-- What two names ask for when they are compared. -/
theorem walked_checkNamed (hw : w.WithinLimits) {s t : String} {c : Checker}
    {answer : Bool × Checker} (hpath : c.guard.path = []) (hexplored : c.explored = [])
    (hc : Tally w c) (h : checkNamed w s t c = .ok answer) :
    Walked w c (questionsOfNames w s t c) answer.1 answer.2 := by
  have nothing {r : Reason} (hr : ∀ place, r ≠ .walkLimitExceeded place) :
      Walked w c [] false (c.note r) := (hc.walked_nil false).note hr
  have hstart : { c with explored := [] } = c := by rw [← hexplored]
  unfold checkNamed at h
  unfold questionsOfNames
  rw [hstart] at h ⊢
  dsimp only at h ⊢
  split at h
  · next hs =>
    cases h
    rw [hs]
    exact nothing nofun
  · next subDef hs =>
    split at h
    · next ht =>
      cases h
      rw [hs, ht]
      cases subDef <;> exact nothing nofun
    · next supDef ht =>
      rw [hs, ht]
      split at h
      · next k _ =>
        obtain ⟨found, c₁, hrun, rfl⟩ := eq_settle_of_map h
        exact (walked_classExtends hc hrun).settle nofun
      · next i _ =>
        obtain ⟨found, c₁, hrun, rfl⟩ := eq_settle_of_map h
        refine Walked.settle ?_ nofun
        have hway : w.LeadsDown (s :: c.guard.path) := by
          rw [hpath]
          exact List.isChain_singleton s
        refine walked_above hw (returns_reaches w t c.levels) hs hc ?_ hway ?_ hrun
        · rw [hexplored]
          exact List.not_mem_nil
        · exact accounts_reaches hw t c.levels (hc.lt_levels _) fun y hy =>
            List.isChain_cons_cons.2 ⟨⟨i, hs, hy⟩, hway⟩
      · next k _ =>
        obtain ⟨found, c₁, hrun, rfl⟩ := eq_settle_of_map h
        exact (walked_classImplements hw hpath hc hrun).settle nofun
      · next hcc hii hci =>
        cases h
        cases subDef <;> cases supDef <;> first | exact nothing nofun | simp_all

/-- The names that the guard was asked for, as it has counted them: each
is an interface, none comes up twice, and no limit was hit. -/
structure Counted (w : World) (asked : List String) (g : Guard) : Prop where
  nodup : asked.Nodup
  interfaces : ∀ x ∈ asked, w.IsInterface x
  attempts : g.attempts = asked.length
  exceeded : g.exceeded = false

/-- The guard before it is asked anything. -/
theorem counted_nil (w : World) (limits : Limits) : Counted w [] { limits } :=
  ⟨List.nodup_nil, by simp, rfl, rfl⟩

/-- A guard that starts afresh has counted what was asked for. -/
theorem Walked.counted {c c' : Checker} {asked : List String} {found : Bool}
    (h : Walked w c asked found c') (hattempts : c.guard.attempts = 0) :
    Counted w asked c'.guard where
  nodup := (List.nodup_append.1 h.fresh).1
  interfaces := h.interfaces
  attempts := by rw [h.attempts, hattempts, Nat.zero_add]
  exceeded := h.exceeded

/-- At the start of a query the books are in order. -/
theorem tally_of_fresh {c : Checker} (hguard : c.guard = { limits := .inheritance })
    (hexplored : c.explored = []) : Tally w c := by
  constructor <;> simp [hguard, hexplored]

/-- What two references ask for when they are compared: that of the
names inside of their layers, if they come to that. -/
theorem counted_checkRef (hw : w.WithinLimits) (sub sup : TypeRef) (c : Checker) :
    ∀ (found : Bool) (c' : Checker), c.guard = { limits := .inheritance } → c.explored = [] →
      checkRef w sub sup c = .ok (found, c') → Counted w (questionsOfRefs w sub sup c) c'.guard := by
  fun_induction checkRef w sub sup c with
  | case1 sub c =>
    intro found c' hguard _ h
    cases h
    unfold questionsOfRefs
    rw [if_pos rfl, hguard]
    exact counted_nil w _
  | case2 c a b nesting hrefused hne =>
    intro found c' hguard _ h
    cases h
    unfold questionsOfRefs
    simp only [if_neg hne, hrefused]
    show Counted w [] c.guard
    rw [hguard]
    exact counted_nil w _
  | case3 c a b nesting henter hne ih =>
    intro found c' hguard hexplored h
    obtain ⟨c₁, hrun, hguard'⟩ := element_of_array henter h
    unfold questionsOfRefs
    simp only [if_neg hne, henter]
    rw [hguard']
    exact ih found c₁ hguard hexplored hrun
  | case4 c a b hne =>
    intro found c' hguard hexplored h
    unfold questionsOfRefs
    rw [if_neg hne]
    have walked := walked_checkNamed hw (by rw [hguard]) hexplored
      (tally_of_fresh hguard hexplored) h
    exact walked.counted (by rw [hguard])
  | case5 c sub sup harrays hnames hne =>
    intro found c' hguard _ h
    cases h
    unfold questionsOfRefs
    rw [if_neg hne]
    show Counted w _ c.guard
    rw [hguard]
    split
    · exact absurd rfl (harrays _ _ rfl)
    · exact absurd rfl (hnames _ _ rfl)
    · exact counted_nil w _

/-- What a query asks for, as the guard of a new checker counts it. -/
theorem counted_ask (hw : w.WithinLimits) (sub sup : Option TypeRef) :
    Counted w (Checker.new.questions w sub sup) (Checker.new.ask w sub sup).2.guard := by
  have hask := check_eq_ok_ask w sub sup Checker.new
  have nothing : Counted w [] Checker.new.guard := counted_nil w _
  unfold check at hask
  unfold questions
  dsimp only at hask
  split at hask
  · rw [← Except.ok.inj hask]
    exact nothing
  · rw [← Except.ok.inj hask]
    exact nothing
  · rw [← Except.ok.inj hask]
    exact nothing
  · next sub sup =>
    dsimp only
    split at hask
    · next hsub =>
      rw [if_pos hsub, ← Except.ok.inj hask]
      exact nothing
    · next hsub =>
      rw [if_neg hsub]
      split at hask
      · next hsup =>
        rw [if_pos hsup, ← Except.ok.inj hask]
        exact nothing
      · next hsup =>
        rw [if_neg hsup]
        exact counted_checkRef hw sub sup _ _ _ rfl rfl hask

/-- Where no limit stands in the way, one is reported only if there are
too many array layers. -/
theorem layers_of_walkLimitExceeded (hw : w.WithinLimits) {sub sup : Option TypeRef}
    {place : TypeRef} (hmem : .walkLimitExceeded place ∈ (Checker.new.ask w sub sup).2.trace) :
    ∃ a b, sub = some a ∧ sup = some b ∧ 64 < a.sharedLayers b ∧ place = a.peel 64 := by
  have layers {n : Nat} {a b : TypeRef} :
      .walkLimitExceeded place ∉ elementMismatches n a b := by
    intro h
    obtain ⟨x, y, heq⟩ := exists_eq_of_mem_elementMismatches h
    cases heq
  have outcome := outcome_ask w sub sup
  generalize (Checker.new.ask w sub sup).1 = found at outcome
  generalize (Checker.new.ask w sub sup).2.trace = reasons at outcome hmem
  cases outcome with
  | void | equal => cases hmem
  | voidSub | voidSup | malformed => simp at hmem
  | @tooDeep a b hlayers =>
    cases List.mem_singleton.1 ((List.mem_append.1 hmem).resolve_left layers)
    exact ⟨a, b, rfl, rfl, hlayers, rfl⟩
  | @shapes a b n =>
    have hshape := (List.mem_append.1 hmem).resolve_left layers
    exact absurd (List.mem_singleton.1 hshape).symm ((shapeRefusal_ne _ _).2.2 place)
  | @names a b n s t answer run =>
    -- Inside of the layers no limit was hit, and so none was reported.
    have walked := walked_checkNamed hw rfl rfl (tally_of_fresh rfl rfl) run
    have hlimit : .walkLimitExceeded place ∉ answer.2.trace := fun h => by
      cases walked.reasons place h
    split at hmem
    · exact absurd hmem hlimit
    · exact absurd hmem (List.not_mem_append layers hlimit)

end Checker

/-- The walk over interfaces is linear, where these form no cycle, no
chain of them is longer than 256, there are no more than 100000 of them,
and definitions are found under their own names. A query asks the guard
for every interface once at most, however many ways lead to it. So the
attempts are no more than the interfaces, and no limit is hit. The only
limit that an explanation can name is that on array layers. -/
theorem asks_each_interface_once (w : World) (hw : w.WithinLimits) (sub sup : Option TypeRef) :
    (Checker.new.questions w sub sup).Nodup ∧
    (∀ x ∈ Checker.new.questions w sub sup, w.IsInterface x) ∧
    (Checker.new.ask w sub sup).2.guard.attempts = (Checker.new.questions w sub sup).length ∧
    (Checker.new.ask w sub sup).2.guard.attempts ≤ w.interfaceNames.length ∧
    (Checker.new.ask w sub sup).2.guard.exceeded = false ∧
    ∀ place, .walkLimitExceeded place ∈ (explain w sub sup).reasons →
      ∃ a b, sub = some a ∧ sup = some b ∧ 64 < a.sharedLayers b ∧ place = a.peel 64 := by
  have counted := Checker.counted_ask hw sub sup
  refine ⟨counted.nodup, counted.interfaces, counted.attempts, ?_, counted.exceeded,
    fun place hmem => ?_⟩
  · rw [counted.attempts]
    exact World.length_le_interfaceNames hw.keyed counted.nodup counted.interfaces
  · cases hallowed : isAllowed w sub sup with
    | true =>
      rw [reasons_explain hallowed] at hmem
      cases hmem
    | false =>
      rw [Checker.explain_of_refused hallowed] at hmem
      exact Checker.layers_of_walkLimitExceeded hw hmem

/-- A lattice of interfaces, two on each of three floors, all of which
list both on the floor above. Two classes, one the base of the other,
list the ground floor, and one of its names twice. -/
def latticePets : Assembly where
  name := "pet"
  types := [
    ("pet.Dog", .class {
      fqn := "pet.Dog", base := some "pet.Animal"
      interfaces := ["pet.Low1", "pet.Low2", "pet.Low1"] }),
    ("pet.Animal", .class { fqn := "pet.Animal", interfaces := ["pet.Low2", "pet.Low1"] }),
    ("pet.Low1", .interface { fqn := "pet.Low1", interfaces := ["pet.Mid1", "pet.Mid2"] }),
    ("pet.Low2", .interface { fqn := "pet.Low2", interfaces := ["pet.Mid1", "pet.Mid2"] }),
    ("pet.Mid1", .interface { fqn := "pet.Mid1", interfaces := ["pet.High1", "pet.High2"] }),
    ("pet.Mid2", .interface { fqn := "pet.Mid2", interfaces := ["pet.High1", "pet.High2"] }),
    ("pet.High1", .interface { fqn := "pet.High1" }),
    ("pet.High2", .interface { fqn := "pet.High2" }),
    ("pet.Lone", .interface { fqn := "pet.Lone" })]

/-- An array of dogs is searched in vain for what none of them is. There
are 20 ways from the dogs to the upper floor, and the guard was asked
for each of the six interfaces once. -/
theorem asks_once_latticePets :
    Checker.new.questions (World.of latticePets []) (some (.array (.named "pet.Dog")))
      (some (.array (.named "pet.Lone"))) =
      ["pet.Low1", "pet.Mid1", "pet.High1", "pet.High2", "pet.Mid2", "pet.Low2"] ∧
    (Checker.new.ask (World.of latticePets []) (some (.array (.named "pet.Dog")))
      (some (.array (.named "pet.Lone")))).2.guard.attempts = 6 ∧
    ∀ place, .walkLimitExceeded place ∉ (explain (World.of latticePets [])
      (some (.array (.named "pet.Dog"))) (some (.array (.named "pet.Lone")))).reasons := by
  have hkeyed : (World.of latticePets []).WellKeyed := World.wellKeyed_of (by decide +kernel)
  have hacyclic : (World.of latticePets []).Acyclic :=
    World.acyclic_of (["pet.High1", "pet.High2", "pet.Mid1", "pet.Mid2", "pet.Low1", "pet.Low2",
      "pet.Animal", "pet.Dog"].idxOf ·) (by decide +kernel)
  have hcount : (World.of latticePets []).interfaceNames.length ≤ 7 := by decide +kernel
  have hlimits : (World.of latticePets []).WithinLimits := {
    keyed := hkeyed
    acyclic := hacyclic.interfaces
    chains := fun chain hchain hinterfaces =>
      ((World.length_le_of_isChain hkeyed hacyclic.interfaces hchain hinterfaces).trans hcount).trans
        (by decide)
    count := hcount.trans (by decide) }
  have hasked : Checker.new.questions (World.of latticePets []) (some (.array (.named "pet.Dog")))
      (some (.array (.named "pet.Lone"))) =
      ["pet.Low1", "pet.Mid1", "pet.High1", "pet.High2", "pet.Mid2", "pet.Low2"] := by
    decide +kernel
  obtain ⟨-, -, hattempts, -, -, hlayers⟩ := asks_each_interface_once (World.of latticePets [])
    hlimits (some (.array (.named "pet.Dog"))) (some (.array (.named "pet.Lone")))
  refine ⟨hasked, ?_, fun place hmem => ?_⟩
  · rw [hattempts, hasked]
    rfl
  · obtain ⟨a, b, hsub, hsup, hdeep, -⟩ := hlayers place hmem
    cases hsub
    cases hsup
    revert hdeep
    decide

end OverrideCheck
