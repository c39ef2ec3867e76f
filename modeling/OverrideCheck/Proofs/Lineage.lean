import OverrideCheck.Lineage
import OverrideCheck.Proofs.Inheritance

/-!
# `OverrideCheck.Proofs.Lineage`: a lineage against the base chain

`World.lineage` follows bases until it has to stop and remembers the
classes by what they call themselves. The base chain of
`Proofs/Inheritance.lean` goes on as long as bases resolve to classes.
This module compares the two.

A lineage never holds more than the chain (`transGen_of_mem_lineage`).
It can hold less for one reason only: it stopped at a class whose name
it had met, and that need not be the class that it met
(`mem_bases_or_cycle_of_baseStep`). So it holds the whole chain in two
situations. Either it did not end at a cycle (`mem_bases_of_ending`);
or definitions are found under their own names, and then the class at
which it stopped is one that it holds (`mem_lineage_of_wellKeyed`).

`World.Bases` is the chain as a list, where it has an end. A lineage
that ended at a class without base, or at a base that is no class, is
that list (`bases_iff_eq_lineage`).

`World.NearestBase` is the first class of a chain that has a property.
A lineage that did not end at a cycle finds it (`find?_lineage_iff`).
-/

set_option autoImplicit false

namespace OverrideCheck

open Relation (ReflTransGen TransGen)

namespace World

variable {w : World}

/-- Following bases from the definition passes these classes, the
nearest first, and then comes to an end: at a definition without base,
or at a base that is defined and no class. -/
inductive Bases (w : World) : TypeDef → List ClassDef → Prop where
  | root {d : TypeDef} (hbase : d.base? = none) : Bases w d []
  | nonClass {d e : TypeDef} {base : String} (hbase : d.base? = some base)
      (hfound : w.resolve base = some e) (hkind : ∀ c, e ≠ .class c) : Bases w d []
  | step {d : TypeDef} {base : String} {parent : ClassDef} {classes : List ClassDef}
      (hbase : d.base? = some base) (hfound : w.resolve base = some (.class parent))
      (rest : Bases w (.class parent) classes) : Bases w d (parent :: classes)

/-- The second class is the nearest one above the first that has the
property. -/
inductive NearestBase (w : World) (p : ClassDef → Prop) : ClassDef → ClassDef → Prop where
  | here {c parent : ClassDef} (step : w.BaseStep c parent) (hp : p parent) :
      NearestBase w p c parent
  | above {c parent b : ClassDef} (step : w.BaseStep c parent) (hp : ¬ p parent)
      (rest : NearestBase w p parent b) : NearestBase w p c b

/-- Every class that the climb passes is above its start. -/
theorem transGen_of_mem_climb (seen : List String) (c : ClassDef) :
    ∀ b ∈ (w.climb seen c).bases, TransGen w.BaseStep c b := by
  fun_induction World.climb w seen c with
  | case1 | case2 | case3 | case5 => simp
  | case4 seen c base hbase parent hfound _ above ih =>
    intro b hmem
    have step : w.BaseStep c parent := ⟨base, hbase, hfound⟩
    rcases List.mem_cons.1 hmem with rfl | hmem
    · exact .single step
    · exact .head step (ih b hmem)

/-- A step out of a class that the climb passed stays among those
classes, unless it is the step at which the climb met a name again. -/
theorem mem_bases_or_cycle_of_baseStep (seen : List String) (c : ClassDef) :
    ∀ x p : ClassDef, x ∈ c :: (w.climb seen c).bases → w.BaseStep x p →
      p ∈ (w.climb seen c).bases ∨ (w.climb seen c).ending = .cycle p.fqn := by
  fun_induction World.climb w seen c with
  | case1 seen c hbase =>
    rintro x p hx ⟨base, hb, -⟩
    rw [List.mem_singleton.1 hx, hbase] at hb
    cases hb
  | case2 seen c base hbase hfound =>
    rintro x p hx ⟨base', hb, hp⟩
    rw [List.mem_singleton.1 hx, hbase] at hb
    cases hb
    rw [hfound] at hp
    cases hp
  | case3 seen c base hbase parent hfound hseen =>
    rintro x p hx step
    rw [List.mem_singleton.1 hx] at step
    have hp : parent = p := baseStep_unique ⟨base, hbase, hfound⟩ step
    exact .inr (by rw [hp])
  | case4 seen c base hbase parent hfound _ above ih =>
    intro x p hx step
    rcases List.mem_cons.1 hx with rfl | hx
    · have hp : parent = p := baseStep_unique ⟨base, hbase, hfound⟩ step
      exact .inl (hp ▸ List.mem_cons_self)
    · rcases ih x p hx step with hmem | hcycle
      · exact .inl (List.mem_cons_of_mem _ hmem)
      · exact .inr hcycle
  | case5 seen c base hbase d hclass hfound =>
    rintro x p hx ⟨base', hb, hp⟩
    rw [List.mem_singleton.1 hx, hbase] at hb
    cases hb
    rw [hfound] at hp
    exact absurd (Option.some.inj hp) (hclass p)

/-- A climb that ends at a cycle has met the name before. -/
theorem mem_of_ending_cycle (seen : List String) (c : ClassDef) :
    ∀ name : String, (w.climb seen c).ending = .cycle name →
      name ∈ seen ∨ ∃ q ∈ (w.climb seen c).bases, q.fqn = name := by
  fun_induction World.climb w seen c with
  | case1 | case2 | case5 => simp
  | case3 seen c base hbase parent hfound hseen =>
    intro name h
    cases h
    exact .inl hseen
  | case4 seen c base hbase parent hfound _ above ih =>
    intro name h
    rcases ih name h with hmem | ⟨q, hq, rfl⟩
    · rcases List.mem_cons.1 hmem with rfl | hmem
      · exact .inr ⟨parent, List.mem_cons_self, rfl⟩
      · exact .inl hmem
    · exact .inr ⟨q, List.mem_cons_of_mem _ hq, rfl⟩

theorem transGen_of_mem_lineage {c b : ClassDef} (h : b ∈ (w.lineage c).bases) :
    TransGen w.BaseStep c b :=
  transGen_of_mem_climb [c.fqn] c b h

/-- The start of a lineage and the classes it holds are on the chain. -/
theorem baseChain_of_mem_lineage {c b : ClassDef} (h : b ∈ c :: (w.lineage c).bases) :
    w.BaseChain c b := by
  rcases List.mem_cons.1 h with rfl | h
  · exact .refl
  · exact (transGen_of_mem_lineage h).to_reflTransGen

/-- A lineage that ends at a cycle has met a class of that name. -/
theorem exists_mem_of_ending_cycle {c : ClassDef} {name : String}
    (h : (w.lineage c).ending = .cycle name) : ∃ q ∈ c :: (w.lineage c).bases, q.fqn = name := by
  rcases mem_of_ending_cycle [c.fqn] c name h with hmem | ⟨q, hq, hname⟩
  · exact ⟨c, List.mem_cons_self, (List.mem_singleton.1 hmem).symm⟩
  · exact ⟨q, List.mem_cons_of_mem _ hq, hname⟩

/-- A list of classes that no step leaves holds the whole chain above
each of its members. -/
theorem mem_of_baseChain {classes : List ClassDef}
    (closed : ∀ x ∈ classes, ∀ p, w.BaseStep x p → p ∈ classes) {c b : ClassDef}
    (hc : c ∈ classes) (chain : w.BaseChain c b) : b ∈ classes := by
  induction chain with
  | refl => exact hc
  | tail _ step ih => exact closed _ ih _ step

/-- A lineage that did not end at a cycle holds everything above its
start. -/
theorem mem_bases_of_ending {c b : ClassDef}
    (hend : ∀ name, (w.lineage c).ending ≠ .cycle name) (h : TransGen w.BaseStep c b) :
    b ∈ (w.lineage c).bases := by
  have stays {x p : ClassDef} (hx : x ∈ c :: (w.lineage c).bases) (step : w.BaseStep x p) :
      p ∈ (w.lineage c).bases :=
    (mem_bases_or_cycle_of_baseStep [c.fqn] c x p hx step).resolve_right (hend p.fqn)
  obtain ⟨parent, step, chain⟩ := TransGen.head'_iff.1 h
  exact mem_of_baseChain (fun x hx p => stays (List.mem_cons_of_mem _ hx))
    (stays List.mem_cons_self step) chain

/-- A lineage that did not end at a cycle holds, with its start, the
whole chain. -/
theorem mem_lineage_of_ending {c b : ClassDef}
    (hend : ∀ name, (w.lineage c).ending ≠ .cycle name) (chain : w.BaseChain c b) :
    b ∈ c :: (w.lineage c).bases := by
  rcases Relation.reflTransGen_iff_eq_or_transGen.1 chain with rfl | chain
  · exact List.mem_cons_self
  · exact List.mem_cons_of_mem _ (mem_bases_of_ending hend chain)

/-- In a world where definitions are found under their own names, a
class on a chain is found under its own name, too. -/
theorem WellKeyed.resolve_fqn_of_chain (hw : w.WellKeyed) {c b : ClassDef}
    (hc : w.resolve c.fqn = some (.class c)) (chain : w.BaseChain c b) :
    w.resolve b.fqn = some (.class b) := by
  cases chain with
  | refl => exact hc
  | tail _ step =>
    obtain ⟨base, -, hfound⟩ := step
    exact hw.resolve_fqn hfound

/-- Where definitions are found under their own names, a lineage holds
the whole chain even if that is a cycle. -/
theorem mem_lineage_of_wellKeyed (hw : w.WellKeyed) {c b : ClassDef}
    (hc : w.resolve c.fqn = some (.class c)) (chain : w.BaseChain c b) :
    b ∈ c :: (w.lineage c).bases := by
  refine mem_of_baseChain (fun x hx p step => ?_) List.mem_cons_self chain
  rcases mem_bases_or_cycle_of_baseStep [c.fqn] c x p hx step with hmem | hcycle
  · exact List.mem_cons_of_mem _ hmem
  · -- The class `q` that the lineage met under this name is `p` itself.
    have hp := hw.resolve_fqn_of_chain hc ((baseChain_of_mem_lineage hx).tail step)
    obtain ⟨q, hq, hname⟩ := exists_mem_of_ending_cycle hcycle
    have hq' := hw.resolve_fqn_of_chain hc (baseChain_of_mem_lineage hq)
    rw [hname, hp] at hq'
    cases hq'
    exact hq

/-- A climb that ends at a name which stands for nothing says so
rightly. -/
theorem resolve_of_ending_unresolved (seen : List String) (c : ClassDef) :
    ∀ name : String, (w.climb seen c).ending = .unresolved name → w.resolve name = none := by
  fun_induction World.climb w seen c with
  | case1 | case3 | case5 => simp
  | case2 seen c base hbase hfound =>
    intro name h
    cases h
    exact hfound
  | case4 seen c base hbase parent hfound _ above ih => exact ih

/-- A climb that ends at a cycle has a class of that name above each
class that it passed, its start included. -/
theorem exists_above_of_ending_cycle (seen : List String) (c : ClassDef) :
    ∀ name : String, (w.climb seen c).ending = .cycle name →
      ∃ p : ClassDef, p.fqn = name ∧
        ∀ q ∈ c :: (w.climb seen c).bases, TransGen w.BaseStep q p := by
  fun_induction World.climb w seen c with
  | case1 | case2 | case5 => simp
  | case3 seen c base hbase parent hfound hseen =>
    intro name h
    cases h
    refine ⟨parent, rfl, fun q hq => ?_⟩
    rw [List.mem_singleton.1 hq]
    exact .single ⟨base, hbase, hfound⟩
  | case4 seen c base hbase parent hfound _ above ih =>
    intro name h
    obtain ⟨p, hp, habove⟩ := ih name h
    refine ⟨p, hp, fun q hq => ?_⟩
    rcases List.mem_cons.1 hq with rfl | hq
    · exact .head ⟨base, hbase, hfound⟩ (habove parent List.mem_cons_self)
    · exact habove q hq

/-- A climb that does not end at a cycle comes to an end, so nothing
goes on above its start forever. -/
theorem acc_of_climb (seen : List String) (c : ClassDef) :
    (∀ name : String, (w.climb seen c).ending ≠ .cycle name) →
      Acc (Function.swap w.BaseStep) c := by
  fun_induction World.climb w seen c with
  | case1 seen c hbase =>
    refine fun _ => .intro c fun p step => ?_
    simp [Function.swap, BaseStep, hbase] at step
  | case2 seen c base hbase hfound =>
    refine fun _ => .intro c fun p step => ?_
    simp [Function.swap, BaseStep, hbase, hfound] at step
  | case3 seen c base hbase parent => exact fun hend => absurd rfl (hend parent.fqn)
  | case4 seen c base hbase parent hfound _ above ih =>
    refine fun hend => .intro c fun p step => ?_
    have hp : parent = p := baseStep_unique ⟨base, hbase, hfound⟩ step
    exact hp ▸ ih hend
  | case5 seen c base hbase d hclass hfound =>
    refine fun _ => .intro c fun p step => ?_
    simp only [Function.swap, BaseStep, hbase, Option.some.injEq, exists_eq_left', hfound] at step
    exact absurd step (hclass p)

/-- A climb that was not cut short has passed all the bases. -/
theorem bases_of_climb (seen : List String) (c : ClassDef) :
    (∀ name : String, (w.climb seen c).ending ≠ .unresolved name) →
    (∀ name : String, (w.climb seen c).ending ≠ .cycle name) →
    w.Bases (.class c) (w.climb seen c).bases := by
  fun_induction World.climb w seen c with
  | case1 seen c hbase => exact fun _ _ => .root hbase
  | case2 seen c base => exact fun hunresolved _ => absurd rfl (hunresolved base)
  | case3 seen c base hbase parent => exact fun _ hcycle => absurd rfl (hcycle parent.fqn)
  | case4 seen c base hbase parent hfound _ above ih =>
    exact fun hunresolved hcycle => .step hbase hfound (ih hunresolved hcycle)
  | case5 seen c base hbase d hclass hfound =>
    exact fun _ _ => .nonClass hbase hfound fun k hk => hclass k hk

/-- Following bases gives one list only. -/
theorem Bases.unique {d : TypeDef} {as bs : List ClassDef} (ha : w.Bases d as)
    (hb : w.Bases d bs) : as = bs := by
  induction ha generalizing bs with
  | root hbase =>
    cases hb with
    | root => rfl
    | nonClass => rfl
    | step hbase' =>
      rw [hbase] at hbase'
      cases hbase'
  | nonClass hbase hfound hkind =>
    cases hb with
    | root => rfl
    | nonClass => rfl
    | step hbase' hfound' =>
      rw [hbase] at hbase'
      cases hbase'
      rw [hfound] at hfound'
      exact absurd (Option.some.inj hfound') (hkind _)
  | step hbase hfound _ ih =>
    cases hb with
    | root hbase' =>
      rw [hbase] at hbase'
      cases hbase'
    | nonClass hbase' hfound' hkind =>
      rw [hbase] at hbase'
      cases hbase'
      rw [hfound] at hfound'
      exact absurd (Option.some.inj hfound').symm (hkind _)
    | step hbase' hfound' rest =>
      rw [hbase] at hbase'
      cases hbase'
      rw [hfound] at hfound'
      cases hfound'
      rw [ih rest]

/-- A lineage that was not cut short is the list of the bases. -/
theorem bases_iff_eq_lineage {c : ClassDef} {classes : List ClassDef}
    (hunresolved : ∀ name, (w.lineage c).ending ≠ .unresolved name)
    (hcycle : ∀ name, (w.lineage c).ending ≠ .cycle name) :
    w.Bases (.class c) classes ↔ classes = (w.lineage c).bases := by
  have hbases := bases_of_climb [c.fqn] c hunresolved hcycle
  constructor
  · exact fun h => h.unique hbases
  · rintro rfl
    exact hbases

/-- The first class of a climb with a property is the nearest one. -/
theorem nearestBase_of_find?_climb (p : ClassDef → Bool) (seen : List String) (c : ClassDef) :
    ∀ b : ClassDef, (w.climb seen c).bases.find? p = some b →
      w.NearestBase (p · = true) c b := by
  fun_induction World.climb w seen c with
  | case1 | case2 | case3 | case5 => simp
  | case4 seen c base hbase parent hfound _ above ih =>
    intro b hb
    have step : w.BaseStep c parent := ⟨base, hbase, hfound⟩
    rw [List.find?_cons] at hb
    split at hb
    · next hp =>
      cases hb
      exact .here step hp
    · next hp => exact .above step (by simp [hp]) (ih b hb)

/-- A chain has one nearest class with a property. -/
theorem NearestBase.unique {p : ClassDef → Prop} {c a b : ClassDef} (ha : w.NearestBase p c a)
    (hb : w.NearestBase p c b) : a = b := by
  induction ha with
  | here step hp =>
    cases hb with
    | here step' => exact baseStep_unique step step'
    | above step' hp' => exact absurd (baseStep_unique step step' ▸ hp) hp'
  | above step hp _ ih =>
    cases hb with
    | here step' hp' => exact absurd (baseStep_unique step step' ▸ hp') hp
    | above step' _ rest' => exact ih (baseStep_unique step step' ▸ rest')

/-- The nearest class with a property lies above the start and has
it. -/
theorem NearestBase.above_and_prop {p : ClassDef → Prop} {c b : ClassDef}
    (h : w.NearestBase p c b) : TransGen w.BaseStep c b ∧ p b := by
  induction h with
  | here step hp => exact ⟨.single step, hp⟩
  | above step _ _ ih => exact ⟨.head step ih.1, ih.2⟩

/-- In a lineage that did not end at a cycle, the first class with a
property is exactly the nearest class of the chain that has it. -/
theorem find?_lineage_iff {p : ClassDef → Bool} {c b : ClassDef}
    (hend : ∀ name, (w.lineage c).ending ≠ .cycle name) :
    (w.lineage c).bases.find? p = some b ↔ w.NearestBase (p · = true) c b := by
  constructor
  · exact nearestBase_of_find?_climb p [c.fqn] c b
  · intro h
    obtain ⟨habove, hp⟩ := h.above_and_prop
    have hsome : ((w.lineage c).bases.find? p).isSome :=
      List.find?_isSome.2 ⟨b, mem_bases_of_ending hend habove, hp⟩
    obtain ⟨a, ha⟩ := Option.isSome_iff_exists.1 hsome
    rw [ha, (nearestBase_of_find?_climb p [c.fqn] c a ha).unique h]

end World

end OverrideCheck
