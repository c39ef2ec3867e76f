import OverrideCheck.Proofs.Ancestry.Coverage
import OverrideCheck.Proofs.BaseLoop

/-!
# `OverrideCheck.Proofs.Ancestry.BaseChain`: a collection on a base chain

The ancestors of a class are collected along its lineage. The base
classes are written down at the start, and then the lists of all classes
are gone through. A loop that does not know the chain ahead goes through
the list of a class, and writes its base down when it goes on to it:
this is `classLoop`, with a number of passes.

Both come to the same (`exists_classLoop`). What a class lists is gone
through without a look at the base classes written down so far, and
these come out as they were (`frames_explore`), so it does not matter
when they are written down.
-/

set_option autoImplicit false

namespace OverrideCheck

namespace Ancestors

namespace Walk

variable {w : World}

/-- The walk with other base classes written down. -/
def withBases (s : Walk) (bases : List ClassDef) : Walk :=
  { s with found := { s.found with bases } }

/-- Write a base class down. -/
def addBase (c : ClassDef) (s : Walk) : Walk := s.withBases (s.found.bases ++ [c])

/-- Go through a list of names and what is above them. -/
def through (w : World) (names : List String) (s : Walk) : Progress := explore w s.levels names s

/-- Go through what a class lists. Nothing is looked for. -/
def visitClass (go : List String → Walk → Progress) (c : ClassDef) (s : Walk) :
    Except Misuse (Bool × Walk) :=
  (go c.interfaces s).map (false, ·)

/-- The loop that goes through the interfaces of all classes, with at
most this many passes: `go` goes through a list of names. -/
def classLoop (w : World) (go : List String → Walk → Progress) (passes : Nat) (k : ClassDef) :
    Except Misuse (Option (Passes Walk)) :=
  w.baseLoop (visitClass go) addBase passes [k.fqn] k {}

/-! ### What a walk hands through -/

/-- The step hands the base classes through: with others it does the
same, and those come out. -/
def Frames (step : Walk → Progress) : Prop :=
  ∀ s bases, step (s.withBases bases) = (step s).map (·.withBases bases)

theorem Frames.run_withBases {step : Walk → Progress} (h : Frames step) {s s' : Walk}
    (hrun : step s = .ok s') (bases : List ClassDef) :
    step (s.withBases bases) = .ok (s'.withBases bases) := by
  rw [h s bases, hrun]
  rfl

theorem frames_above {go : List String → Walk → Progress} (h : ∀ names, Frames (go names))
    (i : InterfaceDef) : Frames (above go i) := by
  intro s bases
  have hguard : (s.withBases bases).guard = s.guard := rfl
  simp only [above, hguard]
  rcases s.guard.enter i.fqn with ⟨e, guard⟩
  cases e with
  | entered =>
    have hinner : go i.interfaces { s.withBases bases with guard } =
        (go i.interfaces { s with guard }).map (·.withBases bases) :=
      h i.interfaces { s with guard } bases
    simp only [hinner]
    rcases go i.interfaces { s with guard } with m | s₁
    · rfl
    · simp only [Except.map, bind, Except.bind]
      have hguard₁ : (s₁.withBases bases).guard = s₁.guard := rfl
      rw [hguard₁]
      rcases s₁.guard.leave i.fqn with m | guard₁ <;> rfl
  | cycle | depthExceeded | attemptsExceeded => rfl

theorem frames_meet (w : World) {go : List String → Walk → Progress}
    (h : ∀ names, Frames (go names)) (name : String) : Frames (meet w go name) := by
  intro s bases
  have hguard : (s.withBases bases).guard = s.guard := rfl
  have hseen : (s.withBases bases).seen = s.seen := rfl
  simp only [meet, hguard, hseen]
  split
  · rfl
  · split
    · rfl
    · split
      · next i _ =>
        exact frames_above h i ({ s with seen := name :: s.seen }.addInterface i) bases
      · rfl
      · rfl

theorem frames_meetAll {meet : String → Walk → Progress} (h : ∀ name, Frames (meet name)) :
    ∀ names, Frames (meetAll meet names)
  | [] => fun _ _ => rfl
  | name :: names => fun s bases => by
    simp only [meetAll, h name s bases]
    rcases meet name s with m | s₁
    · rfl
    · exact frames_meetAll h names s₁ bases

theorem frames_explore (w : World) : ∀ levels names, Frames (explore w levels names)
  | 0, _ => fun _ _ => rfl
  | levels + 1, names => frames_meetAll (frames_meet w (frames_explore w levels)) names

/-! ### The loop -/

theorem exists_visitClass_eq (w : World) (c : ClassDef) (s : Walk) (bases : List ClassDef) :
    ∃ s₁, explore w s.levels c.interfaces s = .ok s₁ ∧
      visitClass (through w) c (s.withBases bases) = .ok (false, s₁.withBases bases) := by
  obtain ⟨s₁, hrun, -⟩ := returns_explore w s.levels c.interfaces s
  have hframed : through w c.interfaces (s.withBases bases) = .ok (s₁.withBases bases) :=
    (frames_explore w s.levels c.interfaces).run_withBases hrun bases
  exact ⟨s₁, hrun, congrArg (Except.map (false, ·)) hframed⟩

/-- Going through the lists of classes, with the base classes written
down on the way or not at all. -/
theorem exists_sweep_eq (w : World) (bases : List ClassDef) :
    ∀ (k : ClassDef) (s : Walk) (before : List ClassDef),
      ∃ s₁, exploreClasses w (k :: bases) s = .ok s₁ ∧
        sweep (visitClass (through w)) addBase k bases (s.withBases before) =
          .ok (false, s₁.withBases (before ++ bases)) := by
  induction bases with
  | nil =>
    intro k s before
    obtain ⟨s₁, hrun, hvisit⟩ := exists_visitClass_eq w k s before
    refine ⟨s₁, ?_, ?_⟩
    · simp only [exploreClasses, hrun, bind, Except.bind]
    · rw [List.append_nil]
      exact hvisit
  | cons next rest ih =>
    intro k s before
    obtain ⟨s₁, hrun, hvisit⟩ := exists_visitClass_eq w k s before
    obtain ⟨s₂, hclasses, hrest⟩ := ih next s₁ (before ++ [next])
    refine ⟨s₂, ?_, ?_⟩
    · rw [exploreClasses, hrun]
      exact hclasses
    · rw [List.append_assoc, List.singleton_append] at hrest
      rw [sweep, hvisit]
      exact hrest

/-- With one pass more than there are names of classes the loop ends,
and gives what the collection gives. It has visited the class and its
base classes, as they are collected. -/
theorem exists_classLoop (w : World) {passes : Nat} (hpasses : w.classNames.length < passes)
    (k : ClassDef) :
    ∃ r, classLoop w (through w) passes k = .ok (some r) ∧
      r.Orderly w k ∧ r.visited = k :: (collect w (.class k)).bases ∧
      run w (.class k) = .ok (r.concluded addEnding) := by
  have hvisit (c : ClassDef) (s : Walk) : ∃ answer, visitClass (through w) c s = .ok answer := by
    obtain ⟨s₁, -, h⟩ := exists_visitClass_eq w c s s.found.bases
    exact ⟨_, h⟩
  obtain ⟨r, hloop, hsweep, halong⟩ := w.loopEnds_lineage addBase hvisit k {} hpasses
  obtain ⟨s, hrun, hsweep'⟩ := exists_sweep_eq w (w.lineage k).bases k
    { found.bases := (w.lineage k).bases } []
  obtain ⟨hnone, hstate⟩ := Prod.mk.inj (Except.ok.inj (hsweep.symm.trans hsweep'))
  -- Nothing is looked for, so the loop has gone to the end of the chain.
  obtain ⟨e, he⟩ := Option.isSome_iff_exists.1 (Option.isNone_eq_false_iff.1 hnone)
  refine ⟨r, hloop, halong.orderly, ?_, ?_⟩
  · rw [bases_collect]
    exact (halong.ended e he).2
  · have hbases : s.found.bases = (w.lineage k).bases :=
      (exploration_of_exploreClasses (Nat.zero_le _) hrun).grows.bases
    have hsame : s.withBases ([] ++ (w.lineage k).bases) = s := by
      rw [List.nil_append, ← hbases]
      rfl
    rw [halong.concluded_eq, hnone, hstate, hsame]
    simp only [run, hrun, bind, Except.bind]
    rfl

end Walk

end Ancestors

end OverrideCheck
