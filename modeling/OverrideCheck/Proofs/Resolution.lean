import OverrideCheck.Audit
import OverrideCheck.Proofs.Narrowing.BaseChain

/-!
# `OverrideCheck.Proofs.Resolution`: nothing but the names matters

A world carries the list of its definitions, so that walks can be shown
to end. The list may hold more than names can stand for, and in an order
of its own. This module shows that no walk looks at it: two worlds in
which every name stands for the same (`World.SameNames`) have the same
lineages, the same answers to every query, the same ancestors and the
same audits.

The lineage is the one place where the list matters to the definition,
since it is what the recursion goes down on; the induction is on the
recursion itself (`World.climb_congr`). Above it every function asks the
world for names and for lineages only, and each lemma here follows one
of them.
-/

set_option autoImplicit false

namespace OverrideCheck

variable {w w' : World}

namespace World

/-- Every name stands for the same in both worlds. -/
def SameNames (w w' : World) : Prop := ∀ fqn, w.resolve fqn = w'.resolve fqn

/-- One step of a climb, without what shows that it ends. -/
theorem climb_eq (w : World) (seen : List String) (c : ClassDef) :
    w.climb seen c = match c.base with
      | none => ⟨[], .root⟩
      | some base =>
        match w.resolve base with
        | none => ⟨[], .unresolved base⟩
        | some (.class parent) =>
          if parent.fqn ∈ seen then ⟨[], .cycle parent.fqn⟩
          else
            ⟨parent :: (w.climb (parent.fqn :: seen) parent).bases,
              (w.climb (parent.fqn :: seen) parent).ending⟩
        | some _ => ⟨[], .nonClass base⟩ := by
  fun_cases World.climb w seen c with
  | case1 hbase => simp only [hbase]
  | case2 base hbase hfound => simp only [hbase, hfound]
  | case3 base hbase parent hfound hseen => simp only [hbase, hfound, hseen, if_true]
  | case4 base hbase parent hfound hnew above => simp only [hbase, hfound, hnew, if_false, above]
  | case5 base hbase d hclass hfound =>
    cases d with
    | «class» parent => exact absurd rfl (hclass parent)
    | interface _ => simp only [hbase, hfound]
    | enum _ => simp only [hbase, hfound]

theorem climb_congr (h : w.SameNames w') (seen : List String) (c : ClassDef) :
    w.climb seen c = w'.climb seen c := by
  fun_induction World.climb w seen c with
  | case1 seen c hbase => rw [climb_eq, hbase]
  | case2 seen c base hbase hfound =>
    rw [h] at hfound
    rw [climb_eq, hbase]
    simp only [hfound]
  | case3 seen c base hbase parent hfound hseen =>
    rw [h] at hfound
    rw [climb_eq, hbase]
    simp only [hfound, hseen, if_true]
  | case4 seen c base hbase parent hfound hnew above ih =>
    rw [h] at hfound
    rw [climb_eq w', hbase]
    simp only [hfound, hnew, if_false, above, ih]
  | case5 seen c base hbase d hclass hfound =>
    rw [h] at hfound
    rw [climb_eq, hbase]
    cases d with
    | «class» parent => exact absurd rfl (hclass parent)
    | interface _ => simp only [hfound]
    | enum _ => simp only [hfound]

theorem lineage_congr (h : w.SameNames w') (c : ClassDef) : w.lineage c = w'.lineage c :=
  climb_congr h [c.fqn] c

end World

/-! ## Queries -/

namespace Checker

theorem leadsTo_congr (h : w.SameNames w') (target : String)
    (search : List String → Checker → Answer) :
    leadsTo w target search = leadsTo w' target search := by
  funext name c
  simp only [leadsTo, h name]

theorem reaches_congr (h : w.SameNames w') (target : String) (levels : Nat) :
    reaches w target levels = reaches w' target levels := by
  induction levels with
  | zero => rfl
  | succ levels ih =>
    funext names c
    simp only [reaches, ih, leadsTo_congr h]

theorem interfaceVisit_congr (h : w.SameNames w') (target : String) :
    interfaceVisit w target = interfaceVisit w' target := by
  ext k c
  simp only [interfaceVisit, lists, reaches_congr h]

theorem follow_congr (h : w.SameNames w') (visit : Visit) (k : ClassDef) (c : Checker) :
    follow w visit k c = follow w' visit k c := by
  fun_induction follow w visit k c with
  | case1 k c hpassed => exact (follow_of_passed hpassed).symm
  | case2 k c hnew misuse hlook | case3 k c hnew c₁ hlook =>
    rw [follow_of_new hnew, hlook]
    rfl
  | case4 k c hnew c₁ hlook hbase =>
    rw [follow_of_new hnew, hlook]
    simp [Except.bind, onward, hbase]
  | case5 k c hnew c₁ hlook base hbase parent hfound ih =>
    rw [follow_of_new hnew, hlook, ih]
    simp [Except.bind, onward, hbase, ← h base, hfound]
  | case6 k c hnew c₁ hlook base hbase d hclass hfound =>
    rw [follow_of_new hnew, hlook]
    cases d with
    | «class» parent => exact (hclass parent rfl).elim
    | interface _ | enum _ => simp [Except.bind, onward, hbase, ← h base, hfound]
  | case7 k c hnew c₁ hlook base hbase hfound =>
    rw [follow_of_new hnew, hlook]
    simp [Except.bind, onward, hbase, ← h base, hfound]

theorem checkNamed_congr (h : w.SameNames w') (sub sup : String) :
    checkNamed w sub sup = checkNamed w' sub sup := by
  funext c
  simp only [checkNamed, h sub, h sup, classExtends, interfaceExtends, classImplements, followFrom,
    interfaceVisit_congr h, follow_congr h, reaches_congr h]

theorem checkRef_congr (h : w.SameNames w') (sub sup : TypeRef) (c : Checker) :
    checkRef w sub sup c = checkRef w' sub sup c := by
  fun_induction checkRef w sub sup c with
  | case1 sub c =>
    unfold checkRef
    rw [if_pos rfl]
  | case2 c a b nesting henter hne =>
    unfold checkRef
    rw [if_neg hne]
    simp only [henter]
  | case3 c a b nesting henter hne ih =>
    rw [ih]
    conv =>
      rhs
      unfold checkRef
    rw [if_neg hne]
    simp only [henter]
  | case4 c a b hne =>
    unfold checkRef
    rw [if_neg hne, checkNamed_congr h]
  | case5 c sub sup harrays hnames hne =>
    unfold checkRef
    rw [if_neg hne]
    split
    · next a b => exact absurd rfl (harrays a b rfl)
    · next a b => exact absurd rfl (hnames a b rfl)
    · rfl

/-- A query has one answer in both worlds, and leaves the same checker
behind. -/
theorem ask_congr (h : w.SameNames w') (sub sup : Option TypeRef) (c : Checker) :
    c.ask w sub sup = c.ask w' sub sup := by
  have hcheck : check w sub sup c = check w' sub sup c := by
    simp only [check, checkRef_congr h]
  rw [check_eq_ok_ask, check_eq_ok_ask] at hcheck
  exact Except.ok.inj hcheck

end Checker

theorem explain_congr (h : w.SameNames w') (sub sup : Option TypeRef) :
    explain w sub sup = explain w' sub sup := by
  rw [explain, explain, Checker.ask_congr h]

/-! ## Ancestors -/

namespace Ancestors

namespace Walk

theorem meet_congr (h : w.SameNames w') (go : List String → Walk → Progress) :
    meet w go = meet w' go := by
  funext name s
  simp only [meet, h name]

theorem explore_congr (h : w.SameNames w') (levels : Nat) :
    explore w levels = explore w' levels := by
  induction levels with
  | zero => rfl
  | succ levels ih =>
    funext names s
    simp only [explore, ih, meet_congr h]

theorem exploreClasses_congr (h : w.SameNames w') (classes : List ClassDef) :
    exploreClasses w classes = exploreClasses w' classes := by
  induction classes with
  | nil => rfl
  | cons c rest ih =>
    funext s
    simp only [exploreClasses, explore_congr h, ih]

theorem run_congr (h : w.SameNames w') (d : TypeDef) : run w d = run w' d := by
  cases d with
  | «class» c => simp only [run, World.lineage_congr h, exploreClasses_congr h]
  | interface i => simp only [run, explore_congr h]
  | enum _ => rfl

end Walk

theorem collect_congr (h : w.SameNames w') (d : TypeDef) : collect w d = collect w' d := by
  obtain ⟨s, hrun⟩ := Walk.exists_run_eq_ok w d
  rw [collect_eq hrun]
  rw [Walk.run_congr h] at hrun
  rw [collect_eq hrun]

end Ancestors

/-! ## Audits -/

theorem Policy.check_congr (h : w.SameNames w') (p : Policy) (site : Site)
    (sub sup : Option TypeRef) : p.check w site sub sup = p.check w' site sub sup := by
  simp only [check, explain_congr h]

/-- Of a pair, an audit asks the world for the comparison of types
only. -/
theorem OverridePair.findings_congr (h : w.SameNames w') (p : Policy) (pair : OverridePair) :
    pair.findings p w = pair.findings p w' := by
  simp only [findings, violations, isCovariant, propertyViolations, methodViolations,
    parameterListViolations, parameterViolations, propertyVerdict, returnVerdict,
    parameterVerdict, Policy.check_congr h]

namespace Audit

theorem checkMember_congr (h : w.SameNames w') (p : Policy) (d : TypeDef)
    (declaredOn : DeclaringKind) (a : Ancestors) (m : Member) :
    checkMember p w d declaredOn a m = checkMember p w' d declaredOn a m := by
  simp only [checkMember, memberDiagnostics, unresolvedNames, h _, OverridePair.findings_congr h]

theorem checkType_congr (h : w.SameNames w') (p : Policy) : checkType p w = checkType p w' := by
  funext d
  have hmember : checkMember p w d = checkMember p w' d := by
    funext declaredOn a m
    exact checkMember_congr h p d declaredOn a m
  simp only [checkType, Ancestors.collect_congr h, hmember]

end Audit

end OverrideCheck
