import Mathlib.Data.List.Dedup
import Mathlib.Data.List.Perm.Subperm
import OverrideCheck.Proofs.Lineage
import OverrideCheck.Walk.Guard

/-!
# `OverrideCheck.Proofs.BaseLoop`: loops over a chain of base classes

Three functions go along the base chain of a class and do something at
each class of it. A loop of this kind does not know how long the chain
is. It visits a class, may have found what it looks for, and otherwise
goes on to the base, unless that is missing, no class, or a class whose
name was passed.

`World.baseLoop` is this loop with a number of passes that it may not
go beyond. With one pass more than there are names of classes it ends
by itself, and it gives what going through the lineage gives
(`loopEnds_lineage`). No name is passed twice, because the loop keeps
what the classes call themselves, and there are only so many such names
in a world (`nodup_lineage`, `length_lineage_le`). It does not matter
under which names the classes are found.

Nothing else bounds the loop. Every chain of classes without a
repetition is passed from its start to its end
(`isPrefix_lineage`).
-/

set_option autoImplicit false

namespace OverrideCheck

namespace World

variable {w : World}

/-- What the classes of a world call themselves, each name once. -/
def classNames (w : World) : List String :=
  ((w.definitions.filterMap TypeDef.class?).map (·.fqn)).dedup

theorem mem_classNames {name : String} {c : ClassDef} (h : w.resolve name = some (.class c)) :
    c.fqn ∈ w.classNames := by
  refine List.mem_dedup.2 (List.mem_map_of_mem ?_)
  exact List.mem_filterMap.2 ⟨.class c, w.mem_of_resolve h, rfl⟩

/-! ### The names of a lineage -/

/-- A climb passes no name twice, and none that was passed before. -/
theorem nodup_climb (seen : List String) (c : ClassDef) :
    ((w.climb seen c).bases.map (·.fqn)).Nodup ∧ ∀ b ∈ (w.climb seen c).bases, b.fqn ∉ seen := by
  fun_induction World.climb w seen c with
  | case1 | case2 | case3 | case5 => simp
  | case4 seen c base hbase parent hfound hnew above ih =>
    -- Above the parent its own name counts as passed.
    obtain ⟨hnodup, hfresh⟩ := ih
    refine ⟨?_, ?_⟩
    · refine List.nodup_cons.2 ⟨?_, hnodup⟩
      intro hmem
      obtain ⟨b, hb, hname⟩ := List.mem_map.1 hmem
      exact hfresh b hb (hname ▸ List.mem_cons_self)
    · intro b hb
      rcases List.mem_cons.1 hb with rfl | hb
      · exact hnew
      · exact fun hseen => hfresh b hb (List.mem_cons_of_mem _ hseen)

theorem nodup_lineage (w : World) (k : ClassDef) :
    ((k :: (w.lineage k).bases).map (·.fqn)).Nodup := by
  obtain ⟨hnodup, hfresh⟩ := w.nodup_climb [k.fqn] k
  refine List.nodup_cons.2 ⟨?_, hnodup⟩
  intro hmem
  obtain ⟨b, hb, hname⟩ := List.mem_map.1 hmem
  exact hfresh b hb (hname ▸ List.mem_cons_self)

/-- All classes of a lineage but the first are found in the world. -/
theorem mem_classNames_of_mem_lineage {k b : ClassDef} (h : b ∈ (w.lineage k).bases) :
    b.fqn ∈ w.classNames := by
  obtain ⟨m, -, base, -, hfound⟩ := Relation.TransGen.tail'_iff.1 (transGen_of_mem_lineage h)
  exact mem_classNames hfound

theorem length_lineage_le (w : World) (k : ClassDef) :
    (w.lineage k).bases.length ≤ w.classNames.length := by
  have hsubset : (w.lineage k).bases.map (·.fqn) ⊆ w.classNames := by
    intro name hname
    obtain ⟨b, hb, rfl⟩ := List.mem_map.1 hname
    exact mem_classNames_of_mem_lineage hb
  have hnodup := (List.nodup_cons.1 (w.nodup_lineage k)).2
  rw [← List.length_map (·.fqn)]
  exact (List.subperm_of_subset hnodup hsubset).length_le

/-- A climb goes on to the base, if that is a class whose name was not
passed. -/
theorem bases_climb {seen : List String} {c parent : ClassDef} (step : w.BaseStep c parent)
    (hnew : parent.fqn ∉ seen) :
    (w.climb seen c).bases = parent :: (w.climb (parent.fqn :: seen) parent).bases := by
  obtain ⟨base, hbase, hfound⟩ := step
  fun_cases World.climb w seen c with
  | case1 hnone => cases hbase.symm.trans hnone
  | case2 base' hbase' hnone =>
    cases hbase.symm.trans hbase'
    cases hfound.symm.trans hnone
  | case3 base' hbase' parent' hfound' hseen =>
    cases hbase.symm.trans hbase'
    cases hfound.symm.trans hfound'
    exact absurd hseen hnew
  | case4 base' hbase' parent' hfound' hnew' above =>
    cases hbase.symm.trans hbase'
    cases hfound.symm.trans hfound'
    rfl
  | case5 base' hbase' d hclass hfound' =>
    cases hbase.symm.trans hbase'
    cases hfound.symm.trans hfound'
    exact absurd rfl (hclass parent)

/-- A chain of classes that passes no name twice, and none that was
passed before, is the start of a climb. -/
theorem isPrefix_climb (chain : List ClassDef) :
    ∀ (seen : List String) (c : ClassDef), (c :: chain).IsChain w.BaseStep →
      (chain.map (·.fqn)).Nodup → (∀ b ∈ chain, b.fqn ∉ seen) →
      chain <+: (w.climb seen c).bases := by
  induction chain with
  | nil =>
    intro seen c _ _ _
    exact List.nil_prefix
  | cons parent chain ih =>
    intro seen c hchain hnodup hfresh
    obtain ⟨step, hrest⟩ := List.isChain_cons_cons.1 hchain
    obtain ⟨hother, hnodup⟩ := List.nodup_cons.1 hnodup
    rw [bases_climb step (hfresh parent List.mem_cons_self)]
    refine List.cons_prefix_cons.2 ⟨rfl, ih _ parent hrest hnodup ?_⟩
    intro b hb hmem
    rcases List.mem_cons.1 hmem with hname | hseen
    · exact hother (List.mem_map.2 ⟨b, hb, hname⟩)
    · exact hfresh b (List.mem_cons_of_mem _ hb) hseen

/-- A lineage holds every chain from its start that passes no name
twice, however long it is. -/
theorem isPrefix_lineage {k : ClassDef} {chain : List ClassDef}
    (hchain : (k :: chain).IsChain w.BaseStep) (hnodup : ((k :: chain).map (·.fqn)).Nodup) :
    k :: chain <+: k :: (w.lineage k).bases := by
  obtain ⟨hstart, hnodup⟩ := List.nodup_cons.1 hnodup
  refine List.cons_prefix_cons.2 ⟨rfl, isPrefix_climb chain [k.fqn] k hchain hnodup ?_⟩
  intro b hb hmem
  exact hstart (List.mem_map.2 ⟨b, hb, List.mem_singleton.1 hmem⟩)

end World

/-! ### The loop -/

/-- What a loop over base classes has done: the classes that it has
visited, why it ended, and where that left the state. There is no such
reason if it has found what it looked for. -/
structure Passes (σ : Type) where
  visited : List ClassDef
  ending : Option ChainEnd
  state : σ

namespace Passes

variable {σ : Type}

/-- One class was visited before. -/
def after (c : ClassDef) (r : Passes σ) : Passes σ := { r with visited := c :: r.visited }

/-- The state, with the reason noted if there is one. -/
def concluded (note : σ → ChainEnd → σ) (r : Passes σ) : σ := r.ending.elim r.state (note r.state)

end Passes

section
variable {σ : Type}

/-- Visit a class and then its base, pass by pass, with at most this
many passes. The names are those of the classes passed so far, and a
base is met by `arrive` before it is visited. There is no answer if the
passes do not suffice. -/
def World.baseLoop (w : World) (visit : ClassDef → σ → Except Misuse (Bool × σ))
    (arrive : ClassDef → σ → σ) :
    Nat → List String → ClassDef → σ → Except Misuse (Option (Passes σ))
  | 0, _, _, _ => .ok none
  | passes + 1, seen, c, s => do
    let (found, s) ← visit c s
    if found then return some ⟨[c], none, s⟩
    else
      match c.base with
      | none => return some ⟨[c], some .root, s⟩
      | some base =>
        match w.resolve base with
        | none => return some ⟨[c], some (.unresolved base), s⟩
        | some (.class parent) =>
          if parent.fqn ∈ seen then return some ⟨[c], some (.cycle parent.fqn), s⟩
          else
            let rest ← w.baseLoop visit arrive passes (parent.fqn :: seen) parent (arrive parent s)
            return rest.map (.after c)
        | some _ => return some ⟨[c], some (.nonClass base), s⟩

/-- Go through a class and the classes of a list, up to the first at
which something is found. -/
def sweep (visit : ClassDef → σ → Except Misuse (Bool × σ)) (arrive : ClassDef → σ → σ) :
    ClassDef → List ClassDef → σ → Except Misuse (Bool × σ)
  | c, [], s => visit c s
  | c, next :: rest, s => do
    let (found, s) ← visit c s
    if found then return (true, s) else sweep visit arrive next rest (arrive next s)

/-- What the loop has done, in terms of the chain above its start. It
has visited the start of that chain, and the whole of it unless
something was found. -/
structure Passes.Along (chain : List ClassDef) (ending : ChainEnd) (r : Passes σ) : Prop where
  visited : r.visited <+: chain
  ended : ∀ e, r.ending = some e → e = ending ∧ r.visited = chain

variable {w : World} {visit : ClassDef → σ → Except Misuse (Bool × σ)} {arrive : ClassDef → σ → σ}

/-- A loop that has ended has made a pass. -/
theorem World.exists_succ_of_baseLoop {passes : Nat} {seen : List String} {c : ClassDef} {s : σ}
    {r : Passes σ} (h : w.baseLoop visit arrive passes seen c s = .ok (some r)) :
    ∃ n, passes = n + 1 := by
  cases passes with
  | zero => cases h
  | succ n => exact ⟨n, rfl⟩

/-- The loop is the same with visits that are the same wherever it comes
to make them. -/
theorem World.baseLoop_congr {visit' : ClassDef → σ → Except Misuse (Bool × σ)} {P : σ → Prop}
    (hsame : ∀ c s, P s → visit' c s = visit c s)
    (hvisit : ∀ c s found s', P s → visit c s = .ok (found, s') → P s')
    (harrive : ∀ c s, P s → P (arrive c s)) (passes : Nat) :
    ∀ (seen : List String) (c : ClassDef) (s : σ), P s →
      w.baseLoop visit' arrive passes seen c s = w.baseLoop visit arrive passes seen c s := by
  induction passes with
  | zero =>
    intro seen c s _
    rfl
  | succ passes ih =>
    intro seen c s hs
    simp only [World.baseLoop, hsame c s hs]
    rcases hrun : visit c s with m | ⟨found, s₁⟩
    · rfl
    · have hs₁ := hvisit c s found s₁ hs hrun
      simp only [bind, Except.bind, ih _ _ _ (harrive _ s₁ hs₁)]

/-- The loop from a class ends within these passes, and gives what going
through the class and those above it gives. -/
def World.LoopEnds (w : World) (visit : ClassDef → σ → Except Misuse (Bool × σ))
    (arrive : ClassDef → σ → σ) (passes : Nat) (seen : List String) (c : ClassDef) (s : σ)
    (above : Lineage) : Prop :=
  ∃ r, w.baseLoop visit arrive passes seen c s = .ok (some r) ∧
    sweep visit arrive c above.bases s = .ok (r.ending.isNone, r.state) ∧
    r.Along (c :: above.bases) above.ending

variable {passes : Nat} {seen : List String} {c : ClassDef} {s s₁ : σ}

/-- A visit that finds something ends the loop, whatever is above the
class. -/
theorem loopEnds_of_found (h : visit c s = .ok (true, s₁)) (above : Lineage) :
    w.LoopEnds visit arrive (passes + 1) seen c s above := by
  refine ⟨⟨[c], none, s₁⟩, ?_, ?_, ?_⟩
  · rw [World.baseLoop, h]
    rfl
  · cases above.bases with
    | nil => exact h
    | cons next rest =>
      rw [sweep, h]
      rfl
  · exact ⟨List.cons_prefix_cons.2 ⟨rfl, List.nil_prefix⟩, nofun⟩

/-- After a visit in vain the loop ends for a reason of its own. -/
theorem loopEnds_of_last (h : visit c s = .ok (false, s₁)) {ending : ChainEnd}
    (hloop : w.baseLoop visit arrive (passes + 1) seen c s = .ok (some ⟨[c], some ending, s₁⟩)) :
    w.LoopEnds visit arrive (passes + 1) seen c s ⟨[], ending⟩ := by
  refine ⟨_, hloop, h, ?_⟩
  exact ⟨List.prefix_refl _, fun e he => ⟨(Option.some.inj he).symm, rfl⟩⟩

/-- After a visit in vain the loop goes on to the base. -/
theorem loopEnds_of_next (h : visit c s = .ok (false, s₁)) {parent : ClassDef} {above : Lineage}
    {seen' : List String}
    (hnext : w.LoopEnds visit arrive passes seen' parent (arrive parent s₁) above)
    (hloop : w.baseLoop visit arrive (passes + 1) seen c s = do
      let rest ← w.baseLoop visit arrive passes seen' parent (arrive parent s₁)
      return rest.map (.after c)) :
    w.LoopEnds visit arrive (passes + 1) seen c s ⟨parent :: above.bases, above.ending⟩ := by
  obtain ⟨r, hrun, hrest, halong⟩ := hnext
  refine ⟨r.after c, ?_, ?_, ?_⟩
  · rw [hloop, hrun]
    rfl
  · rw [sweep, h]
    exact hrest
  · exact {
      visited := List.cons_prefix_cons.2 ⟨rfl, halong.visited⟩
      ended := fun e he => (halong.ended e he).imp_right (congrArg (c :: ·)) }

/-- Whether the loop ends is up to what comes after a visit in vain. -/
theorem loopEnds_of_visit (hvisit : ∀ c s, ∃ answer, visit c s = .ok answer) {above : Lineage}
    (hpasses : above.bases.length < passes)
    (hvain : ∀ n s₁, above.bases.length ≤ n → visit c s = .ok (false, s₁) →
      w.LoopEnds visit arrive (n + 1) seen c s above) :
    w.LoopEnds visit arrive passes seen c s above := by
  cases passes with
  | zero => exact absurd hpasses (Nat.not_lt_zero _)
  | succ n =>
    obtain ⟨⟨found, s₁⟩, h⟩ := hvisit c s
    cases found with
    | true => exact loopEnds_of_found h above
    | false => exact hvain n s₁ (Nat.le_of_lt_succ hpasses) h

/-- With more passes than classes above its start, the loop ends. -/
theorem World.loopEnds_climb (w : World) (arrive : ClassDef → σ → σ)
    (hvisit : ∀ c s, ∃ answer, visit c s = .ok answer) (seen : List String) (c : ClassDef) :
    ∀ (passes : Nat) (s : σ), (w.climb seen c).bases.length < passes →
      w.LoopEnds visit arrive passes seen c s (w.climb seen c) := by
  -- The five ways on from a class are the same for the loop and for the climb.
  fun_induction World.climb w seen c with
  | case1 seen c hbase =>
    intro passes s hpasses
    refine loopEnds_of_visit hvisit hpasses fun n s₁ _ h => loopEnds_of_last h ?_
    rw [World.baseLoop, h]
    simp only [bind, Except.bind, hbase]
    rfl
  | case2 seen c base hbase hfound =>
    intro passes s hpasses
    refine loopEnds_of_visit hvisit hpasses fun n s₁ _ h => loopEnds_of_last h ?_
    rw [World.baseLoop, h]
    simp only [bind, Except.bind, hbase, hfound]
    rfl
  | case3 seen c base hbase parent hfound hseen =>
    intro passes s hpasses
    refine loopEnds_of_visit hvisit hpasses fun n s₁ _ h => loopEnds_of_last h ?_
    rw [World.baseLoop, h]
    simp only [bind, Except.bind, hbase, hfound, hseen]
    rfl
  | case4 seen c base hbase parent hfound hnew above ih =>
    intro passes s hpasses
    refine loopEnds_of_visit hvisit hpasses fun n s₁ hn h =>
      loopEnds_of_next h (ih n (arrive parent s₁) hn) ?_
    rw [World.baseLoop, h]
    simp only [bind, Except.bind, hbase, hfound, hnew]
    rfl
  | case5 seen c base hbase d hclass hfound =>
    intro passes s hpasses
    refine loopEnds_of_visit hvisit hpasses fun n s₁ _ h => loopEnds_of_last h ?_
    rw [World.baseLoop, h]
    simp only [bind, Except.bind, hbase, hfound]
    cases d with
    | «class» parent => exact absurd rfl (hclass parent)
    | interface i => rfl
    | enum e => rfl

/-- The reason that is noted is how the chain ends. -/
theorem Passes.Along.concluded_eq {chain : List ClassDef} {ending : ChainEnd} {r : Passes σ}
    (h : r.Along chain ending) (note : σ → ChainEnd → σ) :
    r.concluded note = if r.ending.isNone then r.state else note r.state ending := by
  unfold Passes.concluded
  cases he : r.ending with
  | none => rfl
  | some e =>
    rw [← (h.ended e he).1]
    rfl

/-- What holds of every loop that has ended. No name was passed twice,
so there were not more passes than names of classes, and one for the
start, which need not be of this world. Unless something was found,
every chain from the start that passes no name twice was visited as a
whole. -/
structure Passes.Orderly (w : World) (k : ClassDef) (r : Passes σ) : Prop where
  nodup : (r.visited.map (·.fqn)).Nodup
  count : r.visited.length ≤ w.classNames.length + 1
  whole : r.ending ≠ none → ∀ chain : List ClassDef, (k :: chain).IsChain w.BaseStep →
    ((k :: chain).map (·.fqn)).Nodup → k :: chain <+: r.visited

theorem Passes.Along.orderly {k : ClassDef} {r : Passes σ}
    (h : r.Along (k :: (w.lineage k).bases) (w.lineage k).ending) : r.Orderly w k where
  nodup := (h.visited.sublist.map _).nodup (w.nodup_lineage k)
  count := Nat.le_trans h.visited.length_le (Nat.succ_le_succ (w.length_lineage_le k))
  whole hended chain hchain hnodup := by
    obtain ⟨e, he⟩ := Option.ne_none_iff_exists'.1 hended
    rw [(h.ended e he).2]
    exact World.isPrefix_lineage hchain hnodup

/-- With one pass more than there are names of classes, the loop from a
class ends. -/
theorem World.loopEnds_lineage (w : World) (arrive : ClassDef → σ → σ)
    (hvisit : ∀ c s, ∃ answer, visit c s = .ok answer) (k : ClassDef) (s : σ)
    (hpasses : w.classNames.length < passes) :
    w.LoopEnds visit arrive passes [k.fqn] k s (w.lineage k) :=
  w.loopEnds_climb arrive hvisit [k.fqn] k passes s
    (Nat.lt_of_le_of_lt (w.length_lineage_le k) hpasses)

end

end OverrideCheck
