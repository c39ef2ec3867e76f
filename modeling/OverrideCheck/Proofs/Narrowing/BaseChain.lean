import OverrideCheck.Narrowing.Basic
import OverrideCheck.Proofs.BaseLoop

/-!
# `OverrideCheck.Proofs.Narrowing.BaseChain`: a checker on a base chain

A checker follows a base chain by recursion, keeps the classes that it
has passed in its state, and writes down how the chain ended. This
module has two other ways to say the same.

* As a loop with a number of passes (`followLoop`): with one pass more
  than there are names of classes it ends, and gives what following the
  chain gives (`exists_followLoop_eq`).
* By the lineage of the class, which has its classes as a list: looking
  for a base is asking the list (`exists_classExtends_eq`), and looking
  for an interface is searching the lists of its classes in turn
  (`exists_classImplements_eq`). The classes passed are not looked at on
  the way, so the search may start without them; they only stay in the
  checker.
-/

set_option autoImplicit false

namespace OverrideCheck

namespace Checker

variable {w : World} {target : String}

/-- The reason that an unfinished chain of base classes leaves. -/
def noteEnding (c : Checker) : ChainEnd → Checker
  | .root | .nonClass _ => c
  | .unresolved fqn => c.note (.unresolvedType fqn)
  | .cycle fqn => c.note (.inheritanceCycle fqn)

/-! ### One class after the other -/

/-- What comes after a look at a class. -/
def onward (w : World) (visit : Visit) (k : ClassDef) : Bool × Checker → Answer
  | (true, c) => .ok (true, c)
  | (false, c) =>
    match k.base with
    | none => .ok (false, c)
    | some base =>
      match w.resolve base with
      | some (.class parent) => follow w visit parent c
      | some _ => .ok (false, c)
      | none => c.refuse (.unresolvedType base)

/-- A class that was not passed is looked at. -/
theorem follow_of_new {visit : Visit} {k : ClassDef} {c : Checker} (hnew : k.fqn ∉ c.chain) :
    follow w visit k c = (visit.look k (c.pass k)).bind (onward w visit k) := by
  fun_cases follow w visit k c with
  | case1 hpassed => exact absurd hpassed hnew
  | case2 _ misuse hlook | case3 _ c₁ hlook =>
    rw [hlook]
    rfl
  | case4 _ c₁ hlook hbase => simp [hlook, Except.bind, onward, hbase]
  | case5 _ c₁ hlook base hbase parent hfound =>
    simp [hlook, Except.bind, onward, hbase, hfound]
  | case6 _ c₁ hlook base hbase d hclass hfound =>
    cases d with
    | «class» parent => exact (hclass parent rfl).elim
    | interface _ | enum _ => simp [hlook, Except.bind, onward, hbase, hfound]
  | case7 _ c₁ hlook base hbase hfound =>
    simp [hlook, Except.bind, onward, hbase, hfound]

/-- A class that was passed is a cycle. -/
theorem follow_of_passed {visit : Visit} {k : ClassDef} {c : Checker} (h : k.fqn ∈ c.chain) :
    follow w visit k c = .ok (false, c.noteEnding (.cycle k.fqn)) := by
  rw [follow, dif_pos h]
  rfl

/-! ### As a loop -/

/-- Follow a base chain from its start, with at most this many
passes. -/
def followLoop (w : World) (look : ClassDef → Checker → Answer) (passes : Nat) (k : ClassDef)
    (c : Checker) : Except Misuse (Option (Passes Checker)) :=
  w.baseLoop look pass passes [k.fqn] k (pass k { c with chain := [] })

/-- If the loop ends within its passes, it has done what following the
chain does. -/
theorem follow_of_baseLoop {visit : Visit} {k : ClassDef} {c : Checker} {passes : Nat}
    {r : Passes Checker} (hnew : k.fqn ∉ c.chain)
    (h : w.baseLoop visit.look pass passes (c.pass k).chain k (c.pass k) = .ok (some r)) :
    follow w visit k c = .ok (r.ending.isNone, r.concluded noteEnding) := by
  obtain ⟨n, rfl⟩ := World.exists_succ_of_baseLoop h
  fun_induction follow w visit k c generalizing n r with
  | case1 k c hpassed => exact absurd hpassed hnew
  | case2 k c _ misuse hlook =>
    rw [World.baseLoop, hlook] at h
    cases h
  | case3 k c _ c₁ hlook =>
    rw [World.baseLoop, hlook] at h
    cases h
    rfl
  | case4 k c _ c₁ hlook hbase =>
    rw [World.baseLoop, hlook] at h
    simp only [bind, Except.bind, hbase] at h
    cases h
    rfl
  | case5 k c _ c₁ hlook base hbase parent hfound ih =>
    -- A look leaves the classes passed alone, so both ask the same list.
    rw [World.baseLoop, hlook, ← (visit.frames k).chain_eq hlook] at h
    simp only [bind, Except.bind, hbase, hfound] at h
    by_cases hpassed : parent.fqn ∈ c₁.chain
    · simp only [hpassed] at h
      cases h
      exact follow_of_passed hpassed
    · simp only [hpassed] at h
      rcases hrest : w.baseLoop visit.look pass n (parent.fqn :: c₁.chain) parent (c₁.pass parent)
        with m | _ | r₁ <;> rw [hrest] at h <;> cases h
      obtain ⟨n, rfl⟩ := World.exists_succ_of_baseLoop hrest
      have habove := ih hpassed n hrest
      exact habove
  | case6 k c _ c₁ hlook base hbase d hclass hfound =>
    rw [World.baseLoop, hlook] at h
    simp only [bind, Except.bind, hbase, hfound] at h
    cases d with
    | «class» parent => exact (hclass parent rfl).elim
    | interface i | enum e =>
      cases h
      rfl
  | case7 k c _ c₁ hlook base hbase hfound =>
    rw [World.baseLoop, hlook] at h
    simp only [bind, Except.bind, hbase, hfound] at h
    cases h
    rfl

/-- With one pass more than there are names of classes the loop ends. It
has gone along the lineage, and gives what following the chain gives. -/
theorem exists_followLoop_eq (w : World) (visit : Visit) (hlook : ∀ k, Returns (visit.look k))
    {passes : Nat} (hpasses : w.classNames.length < passes) (k : ClassDef) (c : Checker) :
    ∃ r, followLoop w visit.look passes k c = .ok (some r) ∧
      followFrom w visit k c = .ok (r.ending.isNone, r.concluded noteEnding) ∧
      sweep visit.look pass k (w.lineage k).bases (pass k { c with chain := [] })
        = .ok (r.ending.isNone, r.state) ∧
      r.Along (k :: (w.lineage k).bases) (w.lineage k).ending := by
  have hvisit (k : ClassDef) (c : Checker) : ∃ answer, visit.look k c = .ok answer := by
    obtain ⟨found, c', h, -⟩ := hlook k c
    exact ⟨_, h⟩
  obtain ⟨r, hloop, hsweep, halong⟩ :=
    w.loopEnds_lineage pass hvisit k (pass k { c with chain := [] }) hpasses
  exact ⟨r, hloop, follow_of_baseLoop List.not_mem_nil hloop, hsweep, halong⟩

/-! ### By the lineage -/

/-- Whether the target is the base of a class of the lineage. -/
def lineageExtends (w : World) (target : String) (k : ClassDef) (c : Checker) : Bool × Checker :=
  if (k :: (w.lineage k).bases).any (·.base = some target) then (true, c)
  else (false, c.noteEnding (w.lineage k).ending)

/-- Whether one of the classes lists the target or an interface below
it. -/
def anyLists (w : World) (target : String) : List ClassDef → Checker → Answer
  | [], c => .ok (false, c)
  | k :: rest, c => do
    let (found, c) ← lists w target k.interfaces c
    if found then return (true, c) else anyLists w target rest c

theorem chain_noteEnding (c : Checker) (e : ChainEnd) (chain : List String) :
    { c with chain }.noteEnding e = { c.noteEnding e with chain } := by
  cases e <;> rfl

theorem exists_sweep_baseVisit (target : String) (bases : List ClassDef) :
    ∀ (k : ClassDef) (c : Checker), ∃ chain, sweep (baseVisit target).look pass k bases c =
      .ok ((k :: bases).any (·.base = some target), { c with chain }) := by
  induction bases with
  | nil =>
    intro k c
    exact ⟨c.chain, by simp [sweep, baseVisit]⟩
  | cons next rest ih =>
    intro k c
    obtain ⟨chain, hrest⟩ := ih next (pass next c)
    by_cases hbase : k.base = some target
    · exact ⟨c.chain, by simp [sweep, baseVisit, hbase, bind, Except.bind, pure, Except.pure]⟩
    · refine ⟨chain, ?_⟩
      rw [List.any_cons, decide_eq_false hbase, Bool.false_or]
      rw [sweep]
      simp only [baseVisit, hbase, bind, Except.bind]
      exact hrest

/-- Looking for a base is asking the lineage. The classes passed stay in
the checker. -/
theorem exists_classExtends_eq (w : World) (target : String) (k : ClassDef) (c : Checker) :
    ∃ chain, classExtends w target k c = .ok (lineageExtends w target k { c with chain }) := by
  obtain ⟨r, -, hfollow, hsweep, halong⟩ := exists_followLoop_eq w (baseVisit target)
    (fun _ => returns_ok) (Nat.lt_succ_self _) k c
  obtain ⟨chain, hlineage⟩ := exists_sweep_baseVisit target (w.lineage k).bases k
    (pass k { c with chain := [] })
  obtain ⟨hany, hstate⟩ := Prod.mk.inj (Except.ok.inj (hsweep.symm.trans hlineage))
  refine ⟨chain, hfollow.trans ?_⟩
  rw [halong.concluded_eq, hstate, hany]
  unfold lineageExtends
  cases (k :: (w.lineage k).bases).any (·.base = some target) <;> rfl

/-- Going through classes, with the classes passed in the checker or
without. -/
theorem anyLists_of_sweep (bases : List ClassDef) :
    ∀ (k : ClassDef) (c : Checker) (chain : List String) (found : Bool) (c' : Checker),
      sweep (interfaceVisit w target).look pass k bases { c with chain } = .ok (found, c') →
      ∃ c₁ chain, anyLists w target (k :: bases) c = .ok (found, c₁) ∧ c' = { c₁ with chain } := by
  induction bases with
  | nil =>
    intro k c chain found c' h
    obtain ⟨found₁, c₁, hrun, -⟩ := returns_lists w target k.interfaces c
    cases h.symm.trans ((frames_lists w target k.interfaces).run_chain hrun chain)
    refine ⟨c₁, chain, ?_, rfl⟩
    rw [anyLists, hrun]
    cases found <;> rfl
  | cons next rest ih =>
    intro k c chain found c' h
    obtain ⟨found₁, c₁, hrun, -⟩ := returns_lists w target k.interfaces c
    have hlook : (interfaceVisit w target).look k { c with chain } =
        .ok (found₁, { c₁ with chain }) :=
      (frames_lists w target k.interfaces).run_chain hrun chain
    rw [sweep, hlook] at h
    rw [anyLists, hrun]
    cases found₁ with
    | true =>
      cases h
      exact ⟨c₁, chain, rfl, rfl⟩
    | false => exact ih next c₁ (next.fqn :: chain) found c' h

/-- Looking for an interface is searching the lists of the lineage in
turn. The classes passed stay in the checker. -/
theorem exists_classImplements_eq (w : World) (target : String) (k : ClassDef) (c : Checker) :
    ∃ found c₁ chain, anyLists w target (k :: (w.lineage k).bases) c = .ok (found, c₁) ∧
      classImplements w target k c =
        .ok (found, { if found then c₁ else c₁.noteEnding (w.lineage k).ending with chain }) := by
  obtain ⟨r, -, hfollow, hsweep, halong⟩ := exists_followLoop_eq w (interfaceVisit w target)
    (fun k => returns_lists w target k.interfaces) (Nat.lt_succ_self _) k c
  obtain ⟨c₁, chain, hlists, hstate⟩ := anyLists_of_sweep _ k c [k.fqn] _ _ hsweep
  refine ⟨r.ending.isNone, c₁, chain, hlists, hfollow.trans ?_⟩
  rw [halong.concluded_eq, hstate]
  cases r.ending.isNone with
  | true => rfl
  | false =>
    rw [if_neg Bool.false_ne_true, if_neg Bool.false_ne_true, chain_noteEnding]

end Checker

end OverrideCheck
