import Mathlib.Data.List.DropRight
import OverrideCheck.Proofs.Guard

/-!
# `OverrideCheck.Proofs.Walk.History`: a guard remembers what happened

A guard keeps a path, a depth, a number of attempts and a flag. This
module says what they are after any use of the guard, in terms of what
happened to it and nothing else.

What happened is a log of events, one for each call that came back
(`Event`): a name was asked for, and this was the answer; a name was
left; the guard was reset. The log knows neither path nor counts. A name
is on the path if it was entered, and neither left nor forgotten by a
reset since (`OnPath`). Attempts and refusals count from the last reset
on (`sinceReset`).

A script may nest scopes. `calls` takes it apart into single calls: a
scope enters its name, makes the calls inside, and leaves the name.
Making these calls one after the other ends where the script ends
(`callAll_calls`), and each of them is a moment of the run, those in
the middle of a scope too.

`Records` is the invariant: the guard agrees with the log. It holds at
the start, one call keeps it (`Records.call`), and so it holds at every
moment (`Records.callAll`). What the guard answers then follows from it
(`Records.answers`).
-/

set_option autoImplicit false

namespace OverrideCheck.Guard

/-! ### Calls and events -/

/-- A single use of a guard. -/
inductive Call where
  | enter (name : String)
  | leave (name : String)
  | reset
  deriving DecidableEq, Repr

/-- What happened in a call that came back. -/
inductive Event where
  | asked (name : String) (answer : Entry)
  | left (name : String)
  | cleared
  deriving DecidableEq, Repr

/-- Make a call. -/
def call (g : Guard) : Call → Except Misuse (Event × Guard)
  | .enter name => .ok (.asked name (g.enter name).1, (g.enter name).2)
  | .leave name => (g.leave name).map fun g' => (.left name, g')
  | .reset => .ok (.cleared, g.reset)

/-- Make calls one after the other, and log what happens. -/
def callAll : List Call → Guard → Except Misuse (List Event × Guard)
  | [], g => .ok ([], g)
  | c :: rest, g =>
    match g.call c with
    | .error m => .error m
    | .ok made => (callAll rest made.2).map fun r => (made.1 :: r.1, r.2)

mutual

/-- The calls that an action stands for. A scope whose name is refused
is nothing but the question. -/
def callsOf : Action → Guard → List Call
  | .enter name, _ => [.enter name]
  | .leave name, _ => [.leave name]
  | .visiting _, _ => []
  | .reset, _ => [.reset]
  | .scope name body, g =>
    match g.enter name with
    | (.entered, inner) => .enter name :: (calls body inner ++ [.leave name])
    | _ => [.enter name]

/-- The calls that a script stands for, up to the first action that ends
in a mistake. -/
def calls : List Action → Guard → List Call
  | [], _ => []
  | a :: rest, g =>
    callsOf a g ++
      match (perform a g).2 with
      | .ok g' => calls rest g'
      | .error _ => []

end

theorem callAll_cons {c : Call} {rest : List Call} {g g' g'' : Guard} {event : Event}
    {log : List Event} (hcall : g.call c = .ok (event, g'))
    (hrest : callAll rest g' = .ok (log, g'')) : callAll (c :: rest) g = .ok (event :: log, g'') := by
  simp only [callAll, hcall, hrest]
  rfl

/-- The first of several calls, and the rest of them. -/
theorem callAll_cons_cases {c : Call} {rest : List Call} {g g'' : Guard} {log : List Event}
    (h : callAll (c :: rest) g = .ok (log, g'')) :
    ∃ event g' more, g.call c = .ok (event, g') ∧ callAll rest g' = .ok (more, g'') ∧
      log = event :: more := by
  rw [callAll] at h
  split at h
  · cases h
  · next made hmade =>
    cases hrest : callAll rest made.2 with
    | error m =>
      rw [hrest] at h
      cases h
    | ok r =>
      rw [hrest] at h
      cases h
      exact ⟨made.1, made.2, r.1, hmade, hrest, rfl⟩

theorem callAll_append {made coming : List Call} :
    ∀ {g g' g'' : Guard} {log more : List Event}, callAll made g = .ok (log, g') →
      callAll coming g' = .ok (more, g'') → callAll (made ++ coming) g = .ok (log ++ more, g'') := by
  induction made with
  | nil =>
    intro g g' g'' log more hmade hcoming
    cases hmade
    exact hcoming
  | cons c made ih =>
    intro g g' g'' log more hmade hcoming
    obtain ⟨event, g₁, log', hcall, hrest, rfl⟩ := callAll_cons_cases hmade
    exact callAll_cons hcall (ih hrest hcoming)

/-- Calls that all come back have a moment between any two of them. -/
theorem callAll_append_cases {made coming : List Call} :
    ∀ {g g'' : Guard} {log : List Event}, callAll (made ++ coming) g = .ok (log, g'') →
      ∃ log' g', callAll made g = .ok (log', g') := by
  induction made with
  | nil =>
    intro g g'' log h
    exact ⟨[], g, rfl⟩
  | cons c made ih =>
    intro g g'' log h
    obtain ⟨event, g₁, more, hcall, hrest, -⟩ := callAll_cons_cases h
    obtain ⟨log', g', hmade⟩ := ih hrest
    exact ⟨event :: log', g', callAll_cons hcall hmade⟩

theorem call_leave {g g' : Guard} {name : String} (h : g.leave name = .ok g') :
    g.call (.leave name) = .ok (.left name, g') := by
  simp only [call, h]
  rfl

/-- A scope whose name is refused does nothing else. -/
theorem scope_denied {g g' : Guard} {name : String} {e : Entry} (henter : g.enter name = (e, g'))
    (he : e ≠ .entered) (body : List Action) :
    perform (.scope name body) g = ([⟨.entry e, g'⟩], .ok g') ∧
      callsOf (.scope name body) g = [.enter name] := by
  rw [perform, callsOf, henter]
  cases e with
  | entered => exact absurd rfl he
  | cycle => exact ⟨rfl, rfl⟩
  | depthExceeded => exact ⟨rfl, rfl⟩
  | attemptsExceeded => exact ⟨rfl, rfl⟩

/-- A scope whose name is entered comes back if what is inside it does,
and the name can be left then. -/
theorem scope_entered {g inner : Guard} {name : String} (henter : g.enter name = (.entered, inner))
    {body : List Action} {g' : Guard} :
    (perform (.scope name body) g).2 = .ok g' ↔
      ∃ after, (performAll body inner).2 = .ok after ∧ after.leave name = .ok g' := by
  rw [perform, henter]
  dsimp only
  rcases performAll body inner with ⟨steps, result⟩
  cases result with
  | error m => simp
  | ok after => cases hleave : after.leave name <;> simp [hleave]

mutual

/-- An action that comes back is its calls, one after the other. -/
theorem callAll_callsOf : ∀ (a : Action) {g g' : Guard}, (perform a g).2 = .ok g' →
    ∃ log, callAll (callsOf a g) g = .ok (log, g')
  | .enter name, g, g', h => by
    cases h
    exact ⟨_, rfl⟩
  | .leave name, g, g', h => by
    rw [perform] at h
    split at h
    · next g₁ hleave =>
      cases h
      exact ⟨_, callAll_cons (call_leave hleave) rfl⟩
    · cases h
  | .visiting name, g, g', h => by
    cases h
    exact ⟨[], rfl⟩
  | .reset, g, g', h => by
    cases h
    exact ⟨_, rfl⟩
  | .scope name body, g, g', h => by
    rcases henter : g.enter name with ⟨e, inner⟩
    have hcall : g.call (.enter name) = .ok (.asked name e, inner) := by
      simp only [call, henter]
    by_cases he : e = .entered
    · -- The body comes back, and then so does the call that leaves the name.
      subst he
      obtain ⟨after, hbody, hleave⟩ := (scope_entered henter).1 h
      obtain ⟨log, hlog⟩ := callAll_calls body hbody
      rw [callsOf, henter]
      exact ⟨_, callAll_cons hcall (callAll_append hlog (callAll_cons (call_leave hleave) rfl))⟩
    · obtain ⟨hperform, hcalls⟩ := scope_denied henter he body
      rw [hperform] at h
      cases h
      rw [hcalls]
      exact ⟨_, callAll_cons hcall rfl⟩

/-- A script that comes to its end is its calls, one after the other. -/
theorem callAll_calls : ∀ (script : List Action) {g g' : Guard},
    (performAll script g).2 = .ok g' → ∃ log, callAll (calls script g) g = .ok (log, g')
  | [], g, g', h => by
    cases h
    exact ⟨[], rfl⟩
  | a :: rest, g, g', h => by
    rw [performAll] at h
    rw [calls]
    split at h
    · cases h
    · next steps g₁ ha =>
      obtain ⟨log, hlog⟩ := callAll_callsOf a (congrArg Prod.snd ha)
      obtain ⟨more, hmore⟩ := callAll_calls rest h
      rw [ha]
      exact ⟨_, callAll_append hlog hmore⟩

end

/-! ### What a log says -/

/-- The events after the last reset. -/
def sinceReset (log : List Event) : List Event := log.rtakeWhile (· ≠ .cleared)

/-- Whether a name was asked for. -/
def Event.isQuestion : Event → Bool
  | asked _ _ => true
  | _ => false

/-- How often a name was asked for since the last reset. -/
def questions (log : List Event) : Nat := (sinceReset log).countP Event.isQuestion

/-- A limit refused a name since the last reset. -/
def LimitHit (log : List Event) : Prop :=
  ∃ name e, Event.asked name e ∈ sinceReset log ∧ e.isExceeded = true

/-- The name was entered, and neither left nor forgotten since. -/
def OnPath (log : List Event) (name : String) : Prop :=
  ∃ earlier later, log = earlier ++ .asked name .entered :: later ∧
    Event.left name ∉ later ∧ Event.cleared ∉ later

section
variable (log : List Event)

theorem sinceReset_cleared : sinceReset (log ++ [.cleared]) = [] := by
  simp [sinceReset]

theorem sinceReset_concat {event : Event} (h : event ≠ .cleared) :
    sinceReset (log ++ [event]) = sinceReset log ++ [event] := by
  simp [sinceReset, h]

theorem questions_cleared : questions (log ++ [.cleared]) = 0 := by
  rw [questions, sinceReset_cleared, List.countP_nil]

theorem questions_asked (name : String) (e : Entry) :
    questions (log ++ [.asked name e]) = questions log + 1 := by
  rw [questions, sinceReset_concat log (by simp), List.countP_append]
  rfl

theorem questions_left (name : String) : questions (log ++ [.left name]) = questions log := by
  rw [questions, sinceReset_concat log (by simp), List.countP_append]
  rfl

theorem not_limitHit_cleared : ¬ LimitHit (log ++ [.cleared]) := by
  rintro ⟨name, e, hmem, -⟩
  rw [sinceReset_cleared] at hmem
  cases hmem

theorem limitHit_asked (name : String) (e : Entry) :
    LimitHit (log ++ [.asked name e]) ↔ LimitHit log ∨ e.isExceeded = true := by
  rw [LimitHit, sinceReset_concat log (by simp)]
  constructor
  · rintro ⟨x, e', hmem, he⟩
    rcases List.mem_append.1 hmem with hearlier | hlast
    · exact .inl ⟨x, e', hearlier, he⟩
    · cases List.mem_singleton.1 hlast
      exact .inr he
  · rintro (⟨x, e', hmem, he⟩ | he)
    · exact ⟨x, e', List.mem_append_left _ hmem, he⟩
    · exact ⟨name, e, by simp, he⟩

theorem limitHit_left (name : String) : LimitHit (log ++ [.left name]) ↔ LimitHit log := by
  rw [LimitHit, sinceReset_concat log (by simp)]
  simp [LimitHit]

/-- One more event puts its name on the path, or takes its name or all
names off it. -/
theorem onPath_concat (event : Event) (name : String) :
    OnPath (log ++ [event]) name ↔
      event = .asked name .entered ∨
        OnPath log name ∧ event ≠ .left name ∧ event ≠ .cleared := by
  constructor
  · rintro ⟨earlier, later, heq, hleft, hcleared⟩
    -- Either the name was entered by this event, or it is one of those behind.
    rcases List.eq_nil_or_concat later with rfl | ⟨later, last, rfl⟩
    · obtain ⟨-, hlast⟩ := List.append_inj' heq rfl
      exact .inl (List.singleton_inj.1 hlast)
    · rw [List.concat_eq_append] at heq hleft hcleared
      have hsplit : log ++ [event] = (earlier ++ .asked name .entered :: later) ++ [last] := by
        rw [heq, List.append_assoc, List.cons_append]
      obtain ⟨hlog, hlast⟩ := List.append_inj' hsplit rfl
      cases hlast
      simp only [List.mem_append, List.mem_singleton, not_or] at hleft hcleared
      exact .inr ⟨⟨earlier, later, hlog, hleft.1, hcleared.1⟩, Ne.symm hleft.2, Ne.symm hcleared.2⟩
  · rintro (rfl | ⟨⟨earlier, later, rfl, hleft, hcleared⟩, hne, hne'⟩)
    · exact ⟨log, [], rfl, List.not_mem_nil, List.not_mem_nil⟩
    · refine ⟨earlier, later ++ [event], by simp, ?_, ?_⟩
      · simp [hleft, Ne.symm hne]
      · simp [hcleared, Ne.symm hne']

end

/-! ### The invariant -/

variable {limits : Limits} {log : List Event} {g g' : Guard} {name : String}

/-- The guard agrees with the log. -/
structure Records (limits : Limits) (log : List Event) (g : Guard) : Prop where
  limits_eq : g.limits = limits
  nodup : g.path.Nodup
  mem_path : ∀ name, name ∈ g.path ↔ OnPath log name
  depth : g.depth = g.path.length
  depth_le : g.depth ≤ limits.maxDepth
  attempts : g.attempts = min (questions log) attemptCeiling
  exceeded : g.exceeded = true ↔ LimitHit log

theorem records_new (limits : Limits) : Records limits [] { limits } where
  limits_eq := rfl
  nodup := List.nodup_nil
  mem_path name := by simp [OnPath]
  depth := rfl
  depth_le := Nat.zero_le _
  attempts := rfl
  exceeded := by simp [LimitHit, sinceReset]

theorem leave_cases (h : g.leave name = .ok g') :
    name ∈ g.path ∧ g' = { g with path := g.path.erase name, depth := g.depth - 1 } := by
  unfold leave at h
  split at h
  · next hmem =>
    cases h
    exact ⟨hmem, rfl⟩
  · cases h

namespace Records

theorem enter (h : Records limits log g) {e : Entry} (henter : g.enter name = (e, g')) :
    Records limits (log ++ [.asked name e]) g' := by
  -- Counting is the same whatever the answer is. A count that has
  -- stopped at the ceiling stays there.
  have hattempts : g'.attempts = min (questions (log ++ [.asked name e])) attemptCeiling := by
    rw [attempts_enter henter, h.attempts, questions_asked]
    omega
  have hexceeded : g'.exceeded = true ↔ LimitHit (log ++ [.asked name e]) := by
    rw [exceeded_enter henter, limitHit_asked, Bool.or_eq_true, h.exceeded]
  have hlimits : g'.limits = limits := (limits_enter henter).trans h.limits_eq
  by_cases he : e = .entered
  · subst he
    obtain ⟨hnew, hpath, hdepth, -, hlt⟩ := enter_entered henter
    refine ⟨hlimits, ?_, fun x => ?_, ?_, ?_, hattempts, hexceeded⟩
    · rw [hpath]
      exact List.nodup_cons.2 ⟨hnew, h.nodup⟩
    · rw [hpath, List.mem_cons, h.mem_path, onPath_concat]
      simp [eq_comm]
    · rw [hdepth, hpath, List.length_cons, h.depth]
    · rw [hdepth]
      rw [h.limits_eq] at hlt
      exact hlt
  · obtain ⟨hpath, hdepth, -⟩ := enter_denied henter he
    refine ⟨hlimits, ?_, fun x => ?_, ?_, ?_, hattempts, hexceeded⟩
    · rw [hpath]
      exact h.nodup
    · rw [hpath, h.mem_path, onPath_concat]
      simp [he]
    · rw [hdepth, hpath, h.depth]
    · rw [hdepth]
      exact h.depth_le

theorem leave (h : Records limits log g) (hleave : g.leave name = .ok g') :
    Records limits (log ++ [.left name]) g' := by
  obtain ⟨hmem, rfl⟩ := leave_cases hleave
  refine ⟨h.limits_eq, h.nodup.erase name, fun x => ?_, ?_, ?_, ?_, ?_⟩
  · rw [h.nodup.mem_erase_iff, h.mem_path, onPath_concat]
    simp [and_comm, eq_comm]
  · rw [List.length_erase_of_mem hmem, h.depth]
  · exact Nat.le_trans (Nat.sub_le _ _) h.depth_le
  · rw [questions_left]
    exact h.attempts
  · rw [limitHit_left]
    exact h.exceeded

theorem reset (h : Records limits log g) : Records limits (log ++ [.cleared]) g.reset where
  limits_eq := h.limits_eq
  nodup := List.nodup_nil
  mem_path x := by simp [Guard.reset, onPath_concat]
  depth := rfl
  depth_le := Nat.zero_le _
  attempts := by rw [questions_cleared]; rfl
  exceeded := by simp [Guard.reset, not_limitHit_cleared]

/-- What one call keeps. -/
theorem call (h : Records limits log g) {c : Call} {event : Event}
    (hcall : g.call c = .ok (event, g')) : Records limits (log ++ [event]) g' := by
  cases c with
  | enter name =>
    cases hcall
    exact h.enter rfl
  | leave name =>
    cases hleave : g.leave name with
    | error m =>
      simp only [Guard.call, hleave] at hcall
      cases hcall
    | ok g₁ =>
      rw [call_leave hleave] at hcall
      cases hcall
      exact h.leave hleave
  | reset =>
    cases hcall
    exact h.reset

/-- What all calls keep. -/
theorem callAll {cs : List Call} : ∀ {log more : List Event} {g g' : Guard},
    Records limits log g → callAll cs g = .ok (more, g') → Records limits (log ++ more) g' := by
  induction cs with
  | nil =>
    intro log more g g' h hcalls
    cases hcalls
    rw [List.append_nil]
    exact h
  | cons c cs ih =>
    intro log more g g' h hcalls
    obtain ⟨event, g₁, rest, hcall, hrest, rfl⟩ := callAll_cons_cases hcalls
    have hnext := ih (h.call hcall) hrest
    rwa [List.append_assoc] at hnext

end Records

/-! ### The answers -/

/-- One more question is one too many. Questions are counted up to
2^32 - 1. -/
def Spent (limits : Limits) (log : List Event) : Prop :=
  limits.maxAttempts < min (questions log + 1) 4294967295

/-- What the guard answers when the name is asked for or left, after
the events of the log. -/
structure Answers (limits : Limits) (log : List Event) (g : Guard) (name : String) : Prop where
  attemptsExceeded : (g.enter name).1 = .attemptsExceeded ↔ Spent limits log
  depthExceeded : (g.enter name).1 = .depthExceeded ↔
    ¬ Spent limits log ∧ g.depth = limits.maxDepth
  cycle : (g.enter name).1 = .cycle ↔
    ¬ Spent limits log ∧ g.depth ≠ limits.maxDepth ∧ OnPath log name
  entered : (g.enter name).1 = .entered ↔
    ¬ Spent limits log ∧ g.depth ≠ limits.maxDepth ∧ ¬ OnPath log name
  /-- A name that is refused changes neither path nor depth. -/
  denied : (g.enter name).1 ≠ .entered →
    (g.enter name).2.path = g.path ∧ (g.enter name).2.depth = g.depth
  /-- Only to leave a name that is not on the path is a mistake. -/
  misuse : (∃ m, g.leave name = .error m) ↔ ¬ OnPath log name

/-- A scope of the name comes back to the same path and depth, if what
is inside it leaves the path as it finds it. -/
def ScopeRestores (g : Guard) (name : String) : Prop :=
  ∀ body, (∀ inner, g.enter name = (.entered, inner) →
      ∃ after, (performAll body inner).2 = .ok after ∧ ∀ x, x ∈ after.path ↔ x ∈ inner.path) →
    ∃ g', (perform (.scope name body) g).2 = .ok g' ∧
      (∀ x, x ∈ g'.path ↔ x ∈ g.path) ∧ g'.depth = g.depth

/-- The reason of each answer: the first limit that is hit, then a name
on the path. -/
theorem answer_iff (g : Guard) (name : String) :
    ((g.enter name).1 = .attemptsExceeded ↔
      g.limits.maxAttempts < min (g.attempts + 1) attemptCeiling) ∧
    ((g.enter name).1 = .depthExceeded ↔
      ¬ g.limits.maxAttempts < min (g.attempts + 1) attemptCeiling ∧
        g.limits.maxDepth ≤ g.depth) ∧
    ((g.enter name).1 = .cycle ↔
      ¬ g.limits.maxAttempts < min (g.attempts + 1) attemptCeiling ∧
        ¬ g.limits.maxDepth ≤ g.depth ∧ name ∈ g.path) ∧
    ((g.enter name).1 = .entered ↔
      ¬ g.limits.maxAttempts < min (g.attempts + 1) attemptCeiling ∧
        ¬ g.limits.maxDepth ≤ g.depth ∧ name ∉ g.path) := by
  unfold enter
  dsimp only
  split
  · next hspent => simp [hspent]
  · next hspent =>
    split
    · next hdeep => simp [hspent, hdeep]
    · next hdeep =>
      split
      · next hon => simp [hspent, hdeep, hon]
      · next hoff => simp [hspent, hdeep, hoff]

theorem leave_eq_error_iff (g : Guard) (name : String) :
    (∃ m, g.leave name = .error m) ↔ name ∉ g.path := by
  unfold leave
  split
  · next h => simp [h]
  · next h => simp [h]

namespace Records

theorem spent_iff (h : Records limits log g) :
    g.limits.maxAttempts < min (g.attempts + 1) attemptCeiling ↔ Spent limits log := by
  have hceiling : attemptCeiling = 4294967295 := rfl
  rw [Spent, h.limits_eq, h.attempts, hceiling]
  omega

theorem deepest_iff (h : Records limits log g) :
    g.limits.maxDepth ≤ g.depth ↔ g.depth = limits.maxDepth := by
  have hle := h.depth_le
  rw [h.limits_eq]
  omega

theorem answers (h : Records limits log g) (name : String) : Answers limits log g name := by
  have hanswer := answer_iff g name
  simp only [h.spent_iff, h.deepest_iff, h.mem_path] at hanswer
  obtain ⟨hattempts, hdepth, hcycle, hentered⟩ := hanswer
  refine ⟨hattempts, hdepth, hcycle, hentered, ?_, ?_⟩
  · intro hdenied
    obtain ⟨hpath, hdepth, -⟩ := enter_denied rfl hdenied
    exact ⟨hpath, hdepth⟩
  · rw [leave_eq_error_iff, h.mem_path]

theorem scopeRestores (h : Records limits log g) (name : String) : ScopeRestores g name := by
  intro body hbody
  rcases henter : g.enter name with ⟨e, inner⟩
  by_cases he : e = .entered
  · subst he
    obtain ⟨hnew, hpath, -, -, -⟩ := enter_entered henter
    obtain ⟨after, hafter, hsame⟩ := hbody inner henter
    -- Whatever was called inside, the guard still agrees with a log.
    obtain ⟨more, hmore⟩ := callAll_calls body hafter
    have hrecords := (h.enter henter).callAll hmore
    have hmem : name ∈ after.path := by
      rw [hsame, hpath]
      exact List.mem_cons_self
    have hleave : after.leave name
        = .ok { after with path := after.path.erase name, depth := after.depth - 1 } := if_pos hmem
    have hback : ∀ x, x ∈ after.path.erase name ↔ x ∈ g.path := by
      intro x
      rw [hrecords.nodup.mem_erase_iff, hsame, hpath, List.mem_cons]
      constructor
      · rintro ⟨hne, heq | hx⟩
        · exact absurd heq hne
        · exact hx
      · intro hx
        exact ⟨fun heq => hnew (heq ▸ hx), .inr hx⟩
    refine ⟨_, (scope_entered henter).2 ⟨after, hafter, hleave⟩, hback, ?_⟩
    -- Two paths without repetitions and with the same names are equally long.
    have hperm : (after.path.erase name).Perm g.path :=
      (List.perm_ext_iff_of_nodup (hrecords.nodup.erase name) h.nodup).2 hback
    rw [(hrecords.leave hleave).depth, h.depth]
    exact hperm.length_eq
  · obtain ⟨hpath, hdepth, -⟩ := enter_denied henter he
    refine ⟨inner, congrArg Prod.snd (scope_denied henter he body).1, fun x => ?_, hdepth⟩
    rw [hpath]

end Records

/-- At every moment of a script that comes to its end on a new guard,
the guard stands and answers as the events up to then say. -/
theorem answers_by_history (limits : Limits) (script : List Action) (final : Guard)
    (hrun : (performAll script { limits }).2 = .ok final) :
    (∃ log, callAll (calls script { limits }) { limits } = .ok (log, final)) ∧
      ∀ made coming, calls script { limits } = made ++ coming →
        ∃ log g, callAll made { limits } = .ok (log, g) ∧ Records limits log g ∧
          ∀ name, Answers limits log g name ∧ ScopeRestores g name := by
  obtain ⟨all, hall⟩ := callAll_calls script hrun
  refine ⟨⟨all, hall⟩, ?_⟩
  intro made coming hsplit
  rw [hsplit] at hall
  obtain ⟨log, g, hmade⟩ := callAll_append_cases hall
  have hrecords : Records limits log g := (records_new limits).callAll hmade
  exact ⟨log, g, hmade, hrecords, fun name => ⟨hrecords.answers name, hrecords.scopeRestores name⟩⟩

/-- Two names on the path at most, and five questions. -/
def tightLimits : Limits := ⟨2, 5⟩

/-- A script that meets both limits and a cycle, some of them inside
scopes, and starts again after a reset. -/
def restlessScript : List Action :=
  [.scope "pet.Dog" [.enter "pet.Dog", .scope "pet.Pet" [.enter "pet.Cat"]],
    .enter "pet.Cat", .enter "pet.Dog", .leave "pet.Cat", .reset, .scope "pet.Cat" []]

/-- In the inner scope of the script, before the third name is refused. -/
theorem answers_by_history_restless :
    (performAll restlessScript { limits := tightLimits }).2
        = .ok { limits := tightLimits, attempts := 1 } ∧
      ∃ log g,
        callAll [.enter "pet.Dog", .enter "pet.Dog", .enter "pet.Pet"] { limits := tightLimits }
          = .ok (log, g) ∧
        Records tightLimits log g ∧
          ∀ name, Answers tightLimits log g name ∧ ScopeRestores g name := by
  have hrun : (performAll restlessScript { limits := tightLimits }).2
      = .ok { limits := tightLimits, attempts := 1 } := by decide +kernel
  have hcalls : calls restlessScript { limits := tightLimits }
      = [.enter "pet.Dog", .enter "pet.Dog", .enter "pet.Pet"] ++
        [.enter "pet.Cat", .leave "pet.Pet", .leave "pet.Dog", .enter "pet.Cat", .enter "pet.Dog",
          .leave "pet.Cat", .reset, .enter "pet.Cat", .leave "pet.Cat"] := by decide +kernel
  refine ⟨hrun, ?_⟩
  exact (answers_by_history tightLimits restlessScript _ hrun).2 _ _ hcalls

end OverrideCheck.Guard
