import OverrideCheck.Narrowing.Checker

/-!
# `OverrideCheck.Narrowing.Basic`: the answer to a query

The search through interfaces enters and leaves names as it goes, and
the descent into arrays enters and leaves levels. Both come back to
where they started, whatever the world looks like and wherever a limit
cuts (`Checker.exists_check_eq_ok`). So a query always has an answer,
and this module gives it without the possibility of misuse:
`Checker.ask` for a checker that is used again, `isAllowed` and
`explain` for a single query.
-/

set_option autoImplicit false

namespace OverrideCheck

namespace Checker

/-- The second checker stands where the first one stood: same path,
same depth, same number of array layers. -/
structure SamePlace (c c' : Checker) : Prop where
  path : c'.guard.path = c.guard.path
  depth : c'.guard.depth = c.guard.depth
  limits : c'.guard.limits = c.guard.limits
  nesting : c'.nesting.depth = c.nesting.depth
  maxNesting : c'.nesting.maxDepth = c.nesting.maxDepth

namespace SamePlace

/-- The place is a matter of the guard and the array layers. -/
theorem of_eq {c c' : Checker} (hguard : c'.guard = c.guard) (hnesting : c'.nesting = c.nesting) :
    SamePlace c c' := by
  constructor <;> simp only [hguard, hnesting]

theorem refl (c : Checker) : SamePlace c c := of_eq rfl rfl

theorem trans {a b c : Checker} (h : SamePlace a b) (k : SamePlace b c) : SamePlace a c :=
  ⟨k.path.trans h.path, k.depth.trans h.depth, k.limits.trans h.limits,
    k.nesting.trans h.nesting, k.maxNesting.trans h.maxNesting⟩

theorem note {c c' : Checker} (h : SamePlace c c') (r : Reason) : SamePlace c (c'.note r) :=
  ⟨h.path, h.depth, h.limits, h.nesting, h.maxNesting⟩

end SamePlace

/-- The step always answers, and comes back to where it started. -/
def Returns (step : Checker → Answer) : Prop :=
  ∀ c, ∃ found c', step c = .ok (found, c') ∧ SamePlace c c'

/-- A run of such a step has come back. -/
theorem Returns.samePlace {step : Checker → Answer} (h : Returns step) {c c' : Checker}
    {found : Bool} (hrun : step c = .ok (found, c')) : SamePlace c c' := by
  obtain ⟨_, _, hrun', same⟩ := h c
  cases hrun.symm.trans hrun'
  exact same

theorem returns_ok {b : Bool} : Returns fun c => .ok (b, c) :=
  fun c => ⟨b, c, rfl, .refl c⟩

theorem returns_refuse (r : Reason) : Returns fun c => c.refuse r :=
  fun c => ⟨false, c.note r, rfl, (SamePlace.refl c).note r⟩

theorem returns_firstFound {visit : String → Checker → Answer}
    (h : ∀ name, Returns (visit name)) :
    ∀ names, Returns (firstFound visit names)
  | [] => returns_ok
  | name :: names => fun c => by
    obtain ⟨found, c₁, h₁, s₁⟩ := h name c
    cases found with
    | true => exact ⟨true, c₁, by simp [firstFound, h₁, bind, Except.bind, pure, Except.pure], s₁⟩
    | false =>
      obtain ⟨found, c₂, h₂, s₂⟩ := returns_firstFound h names c₁
      exact ⟨found, c₂, by simp [firstFound, h₁, bind, Except.bind, h₂], s₁.trans s₂⟩

theorem returns_above {search : List String → Checker → Answer}
    (h : ∀ names, Returns (search names)) (i : InterfaceDef) : Returns (above search i) := by
  intro c
  rcases he : c.guard.enter i.fqn with ⟨e, guard⟩
  by_cases hent : e = .entered
  · subst hent
    obtain ⟨-, hpath, hdepth, hlimits, -⟩ := Guard.enter_entered he
    obtain ⟨found, c₁, h₁, s₁⟩ := h i.interfaces { c with guard }
    -- What was entered is on top of the path again, so it can be left.
    have hleave := Guard.leave_top (s₁.path.trans hpath)
    refine ⟨found, ?_, ?_⟩
    · exact if found || c₁.guard.exceeded then
          { c₁ with guard := { c₁.guard with path := c.guard.path, depth := c₁.guard.depth - 1 } }
        else
          { c₁ with
            guard := { c₁.guard with path := c.guard.path, depth := c₁.guard.depth - 1 }
            explored := i.fqn :: c₁.explored }
    · have hd : c₁.guard.depth - 1 = c.guard.depth := by
        rw [s₁.depth]
        show guard.depth - 1 = c.guard.depth
        omega
      constructor
      · simp only [above, he, h₁, bind, Except.bind, hleave, pure, Except.pure]
        split <;> simp_all
      · split
        · exact ⟨rfl, hd, s₁.limits.trans hlimits, s₁.nesting, s₁.maxNesting⟩
        · exact ⟨rfl, hd, s₁.limits.trans hlimits, s₁.nesting, s₁.maxNesting⟩
  · obtain ⟨hpath, hdepth, hlimits⟩ := Guard.enter_denied he hent
    have hsame : SamePlace c { c with guard } := ⟨hpath, hdepth, hlimits, rfl, rfl⟩
    cases e with
    | entered => exact absurd rfl hent
    | cycle => exact ⟨false, _, by simp only [above, he]; rfl, hsame.note _⟩
    | depthExceeded => exact ⟨false, _, by simp only [above, he]; rfl, hsame.note _⟩
    | attemptsExceeded => exact ⟨false, _, by simp only [above, he]; rfl, hsame.note _⟩

theorem returns_leadsTo (w : World) (target : String) {search : List String → Checker → Answer}
    (h : ∀ names, Returns (search names)) (name : String) :
    Returns (leadsTo w target search name) := by
  intro c
  unfold leadsTo
  split
  · exact returns_ok c
  · split
    · exact returns_ok c
    · split
      · exact returns_above h _ c
      · exact returns_ok c
      · exact returns_refuse _ c

theorem returns_reaches (w : World) (target : String) :
    ∀ levels names, Returns (reaches w target levels names)
  | 0, _ => returns_ok
  | levels + 1, names =>
    returns_firstFound (returns_leadsTo w target (returns_reaches w target levels)) names

theorem returns_lists (w : World) (target : String) (names : List String) :
    Returns (lists w target names) :=
  fun c => returns_reaches w target c.levels names c

theorem returns_interfaceExtends (w : World) (target : String) (i : InterfaceDef) :
    Returns (interfaceExtends w target i) :=
  fun c => returns_above (returns_reaches w target c.levels) i c

/-- Following a base chain always answers, if looking at a class
does. -/
theorem returns_follow (w : World) {visit : Visit} (h : ∀ k, Returns (visit.look k))
    (k : ClassDef) : Returns (follow w visit k) := by
  intro c
  have looked {k : ClassDef} {c c₁ : Checker} {found : Bool}
      (hlook : visit.look k (c.pass k) = .ok (found, c₁)) : SamePlace c c₁ := by
    have start : SamePlace c (c.pass k) := .of_eq rfl rfl
    exact start.trans ((h k).samePlace hlook)
  fun_induction follow w visit k c with
  | case1 k c => exact returns_refuse _ c
  | case2 k c _ misuse hlook =>
    obtain ⟨found, c₁, hok, -⟩ := h k (c.pass k)
    rw [hlook] at hok
    cases hok
  | case3 k c _ c₁ hlook => exact ⟨true, c₁, rfl, looked hlook⟩
  | case4 k c _ c₁ hlook => exact ⟨false, c₁, rfl, looked hlook⟩
  | case5 k c _ c₁ hlook _ _ _ _ ih =>
    obtain ⟨found, c', hrun, same⟩ := ih
    exact ⟨found, c', hrun, (looked hlook).trans same⟩
  | case6 k c _ c₁ hlook => exact ⟨false, c₁, rfl, looked hlook⟩
  | case7 k c _ c₁ hlook => exact ⟨false, _, rfl, (looked hlook).note _⟩

theorem returns_followFrom (w : World) {visit : Visit} (h : ∀ k, Returns (visit.look k))
    (k : ClassDef) : Returns (followFrom w visit k) := by
  intro c
  have start : SamePlace c { c with chain := [] } := .of_eq rfl rfl
  obtain ⟨found, c', hrun, same⟩ := returns_follow w h k { c with chain := [] }
  exact ⟨found, c', hrun, start.trans same⟩

theorem returns_classExtends (w : World) (target : String) (k : ClassDef) :
    Returns (classExtends w target k) :=
  returns_followFrom w (fun _ => returns_ok) k

theorem returns_classImplements (w : World) (target : String) (k : ClassDef) :
    Returns (classImplements w target k) :=
  returns_followFrom w (fun k => returns_lists w target k.interfaces) k

theorem returns_settle {step : Checker → Answer} (h : Returns step) (r : Reason) :
    Returns fun c => (step c).map (settle r) := by
  intro c
  obtain ⟨found, c₁, h₁, s₁⟩ := h c
  cases found with
  | true => exact ⟨true, c₁, by simp [h₁, Except.map, settle], s₁⟩
  | false => exact ⟨false, c₁.note r, by simp [h₁, Except.map, settle], s₁.note r⟩

/-- An answer to which a reason was added was there without it. -/
theorem eq_settle_of_map {answer : Answer} {r : Reason} {result : Bool × Checker}
    (h : answer.map (settle r) = .ok result) :
    ∃ found c₁, answer = .ok (found, c₁) ∧ result = settle r (found, c₁) := by
  rcases answer with m | ⟨found, c₁⟩
  · cases h
  · exact ⟨found, c₁, rfl, (Except.ok.inj h).symm⟩

theorem returns_checkNamed (w : World) (sub sup : String) : Returns (checkNamed w sub sup) := by
  intro c
  have start : SamePlace c { c with explored := [] } := .of_eq rfl rfl
  have go {step : Checker → Answer} (h : Returns step) :
      ∃ found c', step { c with explored := [] } = .ok (found, c') ∧ SamePlace c c' := by
    obtain ⟨found, c', e, s⟩ := h { c with explored := [] }
    exact ⟨found, c', e, start.trans s⟩
  simp only [checkNamed]
  split
  · exact go (returns_refuse _)
  · split
    · exact go (returns_refuse _)
    · split
      · exact go (returns_settle (returns_classExtends w sup _) _)
      · exact go (returns_settle (returns_interfaceExtends w sup _) _)
      · exact go (returns_settle (returns_classImplements w sup _) _)
      · exact go (returns_refuse _)

theorem returns_checkRef (w : World) (sub sup : TypeRef) : Returns (checkRef w sub sup) := by
  intro c
  fun_induction checkRef w sub sup c with
  | case1 sub c => exact returns_ok c
  | case2 c a b nesting h =>
    obtain ⟨hdepth, hmax, -⟩ := Counter.enter_refused h
    exact ⟨false, _, rfl, ⟨rfl, rfl, rfl, hdepth, hmax⟩⟩
  | case3 c a b nesting h _ ih =>
    obtain ⟨hdepth, hmax, -⟩ := Counter.enter_granted h
    obtain ⟨allowed, c₁, h₁, s₁⟩ := ih
    have hleave := Counter.leave_succ (s₁.nesting.trans hdepth)
    have hsame : SamePlace c
        { c₁ with nesting := { c₁.nesting with depth := c.nesting.depth } } :=
      ⟨s₁.path, s₁.depth, s₁.limits, rfl, s₁.maxNesting.trans hmax⟩
    cases allowed with
    | true => exact ⟨true, _, by simp [h₁, bind, Except.bind, hleave, settle]; rfl, hsame⟩
    | false =>
      exact ⟨false, _, by simp [h₁, bind, Except.bind, hleave, settle]; rfl, hsame.note _⟩
  | case4 c a b _ => exact returns_checkNamed w a b c
  | case5 c sub sup _ _ _ => exact returns_refuse _ c

/-- Every query has an answer: no name and no level is left that was
not entered. -/
theorem exists_check_eq_ok (w : World) (sub sup : Option TypeRef) (c : Checker) :
    ∃ allowed c', check w sub sup c = .ok (allowed, c') := by
  unfold check
  split
  · exact ⟨true, _, rfl⟩
  · exact ⟨false, _, rfl⟩
  · exact ⟨false, _, rfl⟩
  · next sub sup =>
    split
    · exact ⟨false, _, rfl⟩
    · split
      · exact ⟨false, _, rfl⟩
      · obtain ⟨allowed, c', h, -⟩ := returns_checkRef w sub sup
          { c with trace := [], guard := c.guard.reset }
        exact ⟨allowed, c', h⟩

/-- Ask whether one type may stand in for another: the answer, and the
checker for the next query. -/
def ask (w : World) (sub sup : Option TypeRef) (c : Checker) : Bool × Checker :=
  match _result : check w sub sup c with
  | .ok answer => answer
  | .error _ => absurd _result (by
      obtain ⟨_, _, h⟩ := exists_check_eq_ok w sub sup c
      simp [h])

/-- What `ask` gives is what the rules answer. -/
theorem check_eq_ok_ask (w : World) (sub sup : Option TypeRef) (c : Checker) :
    check w sub sup c = .ok (ask w sub sup c) := by
  unfold ask
  split
  · next h => exact h
  · next h =>
    obtain ⟨_, _, h'⟩ := exists_check_eq_ok w sub sup c
    simp [h] at h'

/-- The answer of a query with its reasons. A query that succeeds may
have left some as well, and they are dropped. -/
def explanation : Bool × Checker → Explanation
  | (true, _) => ⟨true, []⟩
  | (false, c) => ⟨false, c.trace⟩

end Checker

/-- Whether one type may stand in for another. An absent type is
void. -/
def isAllowed (w : World) (sub sup : Option TypeRef) : Bool := (Checker.new.ask w sub sup).1

/-- Whether one type may stand in for another, and why not. -/
def explain (w : World) (sub sup : Option TypeRef) : Explanation :=
  Checker.explanation (Checker.new.ask w sub sup)

/-- The explanation agrees with the answer. -/
theorem allowed_explain (w : World) (sub sup : Option TypeRef) :
    (explain w sub sup).allowed = isAllowed w sub sup := by
  unfold explain isAllowed Checker.explanation
  split <;> simp_all

/-- There is nothing to explain about a type that may stand in for
another. -/
theorem reasons_explain {w : World} {sub sup : Option TypeRef} (h : isAllowed w sub sup = true) :
    (explain w sub sup).reasons = [] := by
  unfold isAllowed at h
  unfold explain Checker.explanation
  split <;> simp_all

end OverrideCheck
