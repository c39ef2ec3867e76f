import Mathlib.Data.List.Forall2
import OverrideCheck.Proofs.Narrowing.BaseChain

/-!
# `OverrideCheck.Proofs.Narrowing.Reuse`: one checker for many queries

A checker is handed on from query to query, and it does not come back
as it was. The guard keeps its counts until the next query that gets as
far as comparing two references, the explored interfaces stay until the
next comparison of names, the classes passed on a base chain stay until
the next chain is followed, and the nesting counter remembers for good
that a level was refused. None of this reaches a later answer.

Two facts are behind this. A comparison of names looks at nothing of
what is left over. It starts with nothing explored, and it is `Blind`
for the classes passed and for the nesting counter: a base chain starts
with no class passed (`blind_followFrom`), a search through interfaces
hands the classes through without looking at them, and both hand the
counter through. So two checkers that are `Alike`, with the same guard,
the same reasons and the same number of layers, stay alike through the
comparison of two references (`alike_checkRef`), and give the same
answer with the same reasons.

And every query comes back to where a new checker stands, whatever was
found or cut on the way (`exists_check_eq_fresh`): nothing on the path,
depth zero, no layer entered. That is the invariant of a run of queries
(`exists_checkAll_eq_ok`).
-/

set_option autoImplicit false

namespace OverrideCheck

namespace Checker

variable {w : World}

/-- The step looks neither at the array layers nor at the classes passed
that it finds in the checker: with others it finds the same, and leaves
the same but for these. -/
def Blind (step : Checker → Answer) : Prop :=
  ∀ (c c' : Checker) (found : Bool) (nesting : Counter) (chain : List String),
    step c = .ok (found, c') →
    ∃ chain', step (c.aside nesting chain) = .ok (found, c'.aside nesting chain')

/-- What is handed through is not looked at. -/
theorem Frames.blind {step : Checker → Answer} (h : Frames step) : Blind step := by
  intro c c' found nesting chain hrun
  refine ⟨chain, ?_⟩
  rw [h c nesting chain, hrun]
  rfl

theorem blind_refuse (r : Reason) : Blind fun c => c.refuse r := by
  intro c c' found nesting chain hrun
  cases hrun
  exact ⟨chain, rfl⟩

/-- Following a base chain does the same inside of other array
layers. -/
theorem follow_nesting {visit : Visit} {k : ClassDef} {c c' : Checker} {found : Bool}
    (h : follow w visit k c = .ok (found, c')) (nesting : Counter) :
    follow w visit k { c with nesting } = .ok (found, { c' with nesting }) := by
  have looked {k : ClassDef} {c c₁ : Checker} {found : Bool} (hnew : k.fqn ∉ c.chain)
      (hlook : visit.look k (c.pass k) = .ok (found, c₁)) :
      follow w visit k { c with nesting } = onward w visit k (found, { c₁ with nesting }) := by
    have hlook' : visit.look k (pass k { c with nesting }) = .ok (found, { c₁ with nesting }) :=
      (visit.frames k).run_nesting hlook nesting
    rw [follow_of_new (c := { c with nesting }) hnew, hlook']
    rfl
  fun_induction follow w visit k c with
  | case1 k c hpassed =>
    cases h
    exact follow_of_passed hpassed
  | case2 k c hnew misuse hlook => cases h
  | case3 k c hnew c₁ hlook =>
    cases h
    exact looked hnew hlook
  | case4 k c hnew c₁ hlook hbase =>
    cases h
    rw [looked hnew hlook]
    simp [onward, hbase]
  | case5 k c hnew c₁ hlook base hbase parent hfound ih =>
    rw [looked hnew hlook]
    simp only [onward, hbase, hfound]
    exact ih h
  | case6 k c hnew c₁ hlook base hbase d hclass hfound =>
    cases h
    rw [looked hnew hlook]
    cases d with
    | «class» parent => exact (hclass parent rfl).elim
    | interface _ | enum _ => simp [onward, hbase, hfound]
  | case7 k c hnew c₁ hlook base hbase hfound =>
    cases h
    rw [looked hnew hlook]
    simp only [onward, hbase, hfound]
    rfl

/-- A base chain starts with no class passed, whatever an earlier one
has left. -/
theorem blind_followFrom (w : World) (visit : Visit) (k : ClassDef) :
    Blind (followFrom w visit k) := by
  intro c c' found nesting chain hrun
  exact ⟨c'.chain, follow_nesting hrun nesting⟩

theorem Blind.settle {step : Checker → Answer} (h : Blind step) (r : Reason) :
    Blind fun c => (step c).map (settle r) := by
  intro c c' found nesting chain hrun
  obtain ⟨found₁, c₁, hstep, hsettled⟩ := eq_settle_of_map hrun
  obtain ⟨chain', hrun'⟩ := h c c₁ found₁ nesting chain hstep
  refine ⟨chain', ?_⟩
  dsimp only
  rw [hrun']
  cases found₁ <;> cases hsettled <;> rfl

/-- A comparison of names is not reached by what an earlier one has
left. -/
theorem blind_checkNamed (w : World) (s t : String) : Blind (checkNamed w s t) := by
  intro c c' found nesting chain hrun
  have go {step : Checker → Answer} (h : Blind step)
      (hstep : step { c with explored := [] } = .ok (found, c')) :
      ∃ chain', step ({ c with explored := [] }.aside nesting chain) =
        .ok (found, c'.aside nesting chain') := h _ c' found nesting chain hstep
  revert hrun
  unfold checkNamed
  cases w.resolve s with
  | none => exact go (blind_refuse _)
  | some subDef =>
    cases w.resolve t with
    | none => exact go (blind_refuse _)
    | some supDef =>
      match subDef, supDef with
      | .class k, .class _ => exact go ((blind_followFrom w (baseVisit t) k).settle _)
      | .interface i, .interface _ => exact go ((frames_interfaceExtends w t i).blind.settle _)
      | .class k, .interface _ => exact go ((blind_followFrom w (interfaceVisit w t) k).settle _)
      | .class _, .enum _ | .interface _, .class _ | .interface _, .enum _ | .enum _, _ =>
        exact go (blind_refuse _)

/-- Two checkers between which a comparison of references makes no
difference: the guard, the reasons left so far and the number of layers
are the same. What they have explored may differ, and so may the classes
that they have passed and their memory of a refused layer. -/
structure Alike (c d : Checker) : Prop where
  guard : d.guard = c.guard
  trace : d.trace = c.trace
  depth : d.nesting.depth = c.nesting.depth
  maxDepth : d.nesting.maxDepth = c.nesting.maxDepth

theorem Alike.note {c d : Checker} (h : Alike c d) (r : Reason) : Alike (c.note r) (d.note r) :=
  ⟨h.guard, congrArg (r :: ·) h.trace, h.depth, h.maxDepth⟩

/-- Counters at the same depth grant the same. -/
theorem exists_enter_alike {c d c' : Counter} {granted : Bool} (h : c.enter = (granted, c'))
    (hdepth : d.depth = c.depth) (hmax : d.maxDepth = c.maxDepth) :
    ∃ d', d.enter = (granted, d') ∧ d'.depth = c'.depth ∧ d'.maxDepth = c'.maxDepth := by
  unfold Counter.enter at h ⊢
  rw [hdepth, hmax]
  split at h
  · next hfull =>
    cases h
    exact ⟨_, if_pos hfull, rfl, rfl⟩
  · next hroom =>
    cases h
    exact ⟨_, if_neg hroom, rfl, rfl⟩

/-- Two checkers answer alike: both find the same and are alike
afterwards. -/
def AnswerAlike (step : Checker → Answer) (c d : Checker) : Prop :=
  ∃ found c' d', step c = .ok (found, c') ∧ step d = .ok (found, d') ∧ Alike c' d'

/-- A comparison of names starts with nothing explored and is blind for
the layers and the classes passed, so only the guard and the reasons
matter. -/
theorem alike_checkNamed (w : World) (s t : String) {c d : Checker} (h : Alike c d) :
    AnswerAlike (checkNamed w s t) c d := by
  obtain ⟨found, c', hc, same⟩ := returns_checkNamed w s t c
  obtain ⟨chain, hblind⟩ := blind_checkNamed w s t c c' found d.nesting d.chain hc
  have hd : checkNamed w s t d = checkNamed w s t (c.aside d.nesting d.chain) := by
    have start : { d with explored := [] } =
        { c.aside d.nesting d.chain with explored := [] } := by
      simp [aside, h.guard, h.trace]
    simp only [checkNamed, start]
  refine ⟨found, c', _, hc, hd.trans hblind, rfl, rfl, ?_, ?_⟩
  · exact h.depth.trans same.nesting.symm
  · exact h.maxDepth.trans same.maxNesting.symm

/-- Checkers that are alike compare two references alike. -/
theorem alike_checkRef (w : World) (sub sup : TypeRef) {c d : Checker} (h : Alike c d) :
    AnswerAlike (checkRef w sub sup) c d := by
  fun_induction checkRef w sub sup c generalizing d with
  | case1 sub c =>
    unfold AnswerAlike checkRef
    simp only [if_true]
    exact ⟨true, c, d, rfl, rfl, h⟩
  | case2 c a b nesting hrefused hne =>
    obtain ⟨nesting', hrefused', hdepth, hmax⟩ := exists_enter_alike hrefused h.depth h.maxDepth
    have hafter : Alike { c with nesting } { d with nesting := nesting' } :=
      ⟨h.guard, h.trace, hdepth, hmax⟩
    unfold AnswerAlike checkRef
    simp only [if_neg hne, hrefused, hrefused']
    exact ⟨false, _, _, rfl, rfl, hafter.note _⟩
  | case3 c a b nesting hgranted hne ih =>
    obtain ⟨nesting', hgranted', hdepth, hmax⟩ := exists_enter_alike hgranted h.depth h.maxDepth
    have hinside : Alike { c with nesting } { d with nesting := nesting' } :=
      ⟨h.guard, h.trace, hdepth, hmax⟩
    obtain ⟨found, c₁, d₁, hc, hd, hafter⟩ := ih hinside
    -- The level that was entered is left again, on both sides.
    have hlevel : c₁.nesting.depth = c.nesting.depth + 1 :=
      ((returns_checkRef w a b).samePlace hc).nesting.trans (Counter.enter_granted hgranted).1
    have hleave := Counter.leave_succ hlevel
    have hleave' := Counter.leave_succ (hafter.depth.trans hlevel)
    have houtside : Alike { c₁ with nesting := { c₁.nesting with depth := c.nesting.depth } }
        { d₁ with nesting := { d₁.nesting with depth := c.nesting.depth } } :=
      ⟨hafter.guard, hafter.trace, rfl, hafter.maxDepth⟩
    unfold AnswerAlike checkRef
    simp only [if_neg hne, hgranted, hgranted', hc, hd, bind, Except.bind, hleave, hleave']
    cases found with
    | true => exact ⟨true, _, _, rfl, rfl, houtside⟩
    | false => exact ⟨false, _, _, rfl, rfl, houtside.note _⟩
  | case4 c a b hne =>
    unfold AnswerAlike checkRef
    simp only [if_neg hne]
    exact alike_checkNamed w a b h
  | case5 c sub sup harrays hnames hne =>
    have refused (e : Checker) : checkRef w sub sup e = e.refuse (shapeRefusal sub sup) := by
      rw [checkRef, if_neg hne]
      · exact harrays
      · exact hnames
    exact ⟨false, _, _, refused c, refused d, h.note _⟩

/-- A query is answered in one of two ways. Either the answer and its
reasons hang on the two types alone and nothing else is touched, or two
references are compared, with the guard reset. -/
theorem check_cases (w : World) (sub sup : Option TypeRef) :
    (∃ found trace, ∀ c, check w sub sup c = .ok (found, { c with trace })) ∨
    ∃ a b, ∀ c, check w sub sup c =
      checkRef w a b { c with trace := [], guard := c.guard.reset } := by
  match sub, sup with
  | none, none => exact .inl ⟨true, [], fun _ => rfl⟩
  | none, some _ => exact .inl ⟨false, [.voidMismatch .subtype], fun _ => rfl⟩
  | some _, none => exact .inl ⟨false, [.voidMismatch .supertype], fun _ => rfl⟩
  | some a, some b =>
    cases ha : a.wellFormed with
    | false => exact .inl ⟨false, [.malformedType a], fun c => by simp [check, ha, refuse, note]⟩
    | true =>
      cases hb : b.wellFormed with
      | false =>
        exact .inl ⟨false, [.malformedType b], fun c => by simp [check, ha, hb, refuse, note]⟩
      | true => exact .inr ⟨a, b, fun c => by simp [check, ha, hb]⟩

/-- The step from one query to the next. A checker that stands where a
new one stands gives the answer and the reasons of a new one, and
stands there again. -/
theorem exists_check_eq_fresh (w : World) (sub sup : Option TypeRef) {c : Checker}
    (h : SamePlace Checker.new c) :
    ∃ answer, check w sub sup c = .ok answer ∧ SamePlace Checker.new answer.2 ∧
      answer.1 = isAllowed w sub sup ∧ explanation answer = explain w sub sup := by
  have hfresh := check_eq_ok_ask w sub sup Checker.new
  rcases check_cases w sub sup with ⟨found, trace, hdirect⟩ | ⟨a, b, hcompare⟩
  · refine ⟨_, hdirect c, ⟨h.path, h.depth, h.limits, h.nesting, h.maxNesting⟩, ?_, ?_⟩
    · rw [isAllowed, ← Except.ok.inj ((hdirect Checker.new).symm.trans hfresh)]
    · rw [explain, ← Except.ok.inj ((hdirect Checker.new).symm.trans hfresh)]
      cases found <;> rfl
  · have hreset : c.guard.reset = Checker.new.guard.reset :=
      congrArg (Guard.mk · [] 0 0 false) h.limits
    have halike : Alike { Checker.new with trace := [], guard := Checker.new.guard.reset }
        { c with trace := [], guard := c.guard.reset } :=
      ⟨hreset, rfl, h.nesting, h.maxNesting⟩
    obtain ⟨found, d', c', hd, hc, hafter⟩ := alike_checkRef w a b halike
    have hask := Except.ok.inj (((hcompare Checker.new).trans hd).symm.trans hfresh)
    refine ⟨(found, c'), (hcompare c).trans hc, ?_, ?_, ?_⟩
    · have hstart : SamePlace Checker.new { c with trace := [], guard := c.guard.reset } :=
        ⟨rfl, rfl, h.limits, h.nesting, h.maxNesting⟩
      exact hstart.trans ((returns_checkRef w a b).samePlace hc)
    · rw [isAllowed, ← hask]
    · rw [explain, ← hask]
      cases found with
      | true => rfl
      | false => exact congrArg (Explanation.mk false) hafter.trace

/-- The two types of a query. -/
abbrev Query := Option TypeRef × Option TypeRef

/-- Answer one query after the other on one checker, up to the first
misuse of the guard or the counter. Each answer comes with the checker
after it. -/
def checkAll (w : World) : List Query → Checker → Except Misuse (List (Bool × Checker))
  | [], _ => .ok []
  | (sub, sup) :: queries, c => do
    let answer ← check w sub sup c
    let answers ← checkAll w queries answer.2
    return answer :: answers

/-- The answer is what a new checker would give, with the same reasons
for a refusal, and the checker after it is ready to be asked again or
to be given up. -/
structure Fresh (w : World) (query : Query) (answer : Bool × Checker) : Prop where
  allowed : answer.1 = isAllowed w query.1 query.2
  explained : explanation answer = explain w query.1 query.2
  path : answer.2.guard.path = []
  depth : answer.2.guard.depth = 0
  nesting : answer.2.nesting.depth = 0
  dropGuard : answer.2.guard.drop = .ok ()
  dropNesting : answer.2.nesting.drop = .ok ()

theorem Fresh.of_samePlace {query : Query} {answer : Bool × Checker}
    (h : SamePlace Checker.new answer.2) (hallowed : answer.1 = isAllowed w query.1 query.2)
    (hexplained : explanation answer = explain w query.1 query.2) : Fresh w query answer where
  allowed := hallowed
  explained := hexplained
  path := h.path
  depth := h.depth
  nesting := h.nesting
  dropGuard := if_pos h.path
  dropNesting := if_pos h.nesting

/-- A run of queries, from a checker that stands where a new one
stands. -/
theorem exists_checkAll_eq_ok (w : World) :
    ∀ (queries : List Query) {c : Checker}, SamePlace Checker.new c →
      ∃ answers, checkAll w queries c = .ok answers ∧ List.Forall₂ (Fresh w) queries answers
  | [], _, _ => ⟨[], rfl, .nil⟩
  | (sub, sup) :: queries, c, h => by
    obtain ⟨answer, hcheck, hplace, hallowed, hexplained⟩ := exists_check_eq_fresh w sub sup h
    obtain ⟨answers, hrest, hfresh⟩ := exists_checkAll_eq_ok w queries hplace
    refine ⟨answer :: answers, ?_, .cons (.of_samePlace hplace hallowed hexplained) hfresh⟩
    simp only [checkAll, hcheck, bind, Except.bind, hrest]
    rfl

end Checker

/-- A checker carries nothing from one query to the next. However many
queries are put to one checker, in whatever world, none of them misuses
the guard or the counter. Each is answered as by a new checker, with
the reasons that a new checker gives, and this is so whatever interfaces
and classes are left in the checker as explored and as passed. After
each of them the guard is off any path and at depth zero, no array layer
is entered, and both may be given up. -/
theorem checkAll_fresh (w : World) (explored chain : List String) (queries : List Checker.Query) :
    ∃ answers, Checker.checkAll w queries { Checker.new with explored, chain } = .ok answers ∧
      List.Forall₂ (Checker.Fresh w) queries answers :=
  Checker.exists_checkAll_eq_ok w queries (.of_eq rfl rfl)

end OverrideCheck
