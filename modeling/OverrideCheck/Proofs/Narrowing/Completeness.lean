import OverrideCheck.Proofs.Narrowing.Soundness

/-!
# `OverrideCheck.Proofs.Narrowing.Completeness`: what is refused is not inherited

A refusal is right as well, in a world where definitions are found
under their own names and unless a limit has cut the search. Cycles do
no harm. This is less plain than it looks: an interface that was
searched in vain is remembered as explored, also if the search turned
back because an interface below it was on the path. Such an interface
may well lead to the target, through the rest of the path.

So `explored` does not mean that the target is out of reach. What it
means is `Frontier`: an edge out of an explored interface leads to an
explored interface, or to the path, or to a name that is no interface,
and never to the target itself. Each rule of a search keeps this
(`Search.exhausts`), since an interface that leaves the path becomes
explored at that moment. When the search is over the path is empty
again, and then the explored interfaces are closed under edges: the
target is out of reach of all of them (`Search.not_leads`).

The path holds what definitions call themselves, the lists hold names
under which they are found. That the two agree is used where a cycle is
refused and where an interface becomes explored, and nowhere else.

Two classes are compared without the guard, so their comparison is
right whatever limits there are.
-/

set_option autoImplicit false

namespace OverrideCheck

namespace Checker

variable {w : World} {target : String}

/-- The search need not look at the name again: it was explored, or it
is being explored, or it is no interface. -/
def Accounted (w : World) (c : Checker) (x : String) : Prop :=
  x ∈ c.explored ∨ x ∈ c.guard.path ∨ ∀ i, w.resolve x ≠ some (.interface i)

/-- Edges out of explored interfaces lead to names that are accounted
for, and not to the target. -/
def Frontier (w : World) (target : String) (c : Checker) : Prop :=
  ∀ x ∈ c.explored, ∀ y, w.InterfaceEdge x y → y ≠ target ∧ Accounted w c y

/-- What a search in vain has done between two checkers: the frontier
is kept, nothing explored is forgotten, and every name of the list is
accounted for. -/
structure Exhausts (w : World) (target : String) (names : List String) (c c' : Checker) : Prop where
  frontier : Frontier w target c'
  explored : c.explored ⊆ c'.explored
  names : ∀ x ∈ names, x ≠ target ∧ Accounted w c' x

theorem Accounted.mono {c c' : Checker} {x : String} (h : Accounted w c x)
    (hexplored : c.explored ⊆ c'.explored)
    (hpath : ∀ y ∈ c.guard.path, y ∈ c'.explored ∨ y ∈ c'.guard.path) : Accounted w c' x := by
  rcases h with h | h | h
  · exact .inl (hexplored h)
  · rcases hpath x h with h | h
    · exact .inl h
    · exact .inr (.inl h)
  · exact .inr (.inr h)

/-- The frontier is kept when only the path grows. -/
theorem Frontier.of_path {c c' : Checker} (h : Frontier w target c)
    (hexplored : c'.explored = c.explored) (hpath : c.guard.path ⊆ c'.guard.path) :
    Frontier w target c' := by
  intro x hx y edge
  rw [hexplored] at hx
  obtain ⟨hne, haccounted⟩ := h x hx y edge
  exact ⟨hne, haccounted.mono (by rw [hexplored]; exact List.Subset.refl _)
    fun z hz => .inr (hpath hz)⟩

/-- A first name that is accounted for in the end, and a search in vain
through the rest. -/
theorem Exhausts.cons {name : String} {names : List String} {c c₁ c' : Checker}
    (rest : Exhausts w target names c₁ c') (hne : name ≠ target) (hname : Accounted w c' name)
    (hexplored : c.explored ⊆ c₁.explored) : Exhausts w target (name :: names) c c' where
  frontier := rest.frontier
  explored := List.Subset.trans hexplored rest.explored
  names x hx := by
    rcases List.mem_cons.1 hx with rfl | hx
    · exact ⟨hne, hname⟩
    · exact rest.names x hx

/-- An interface that leaves the path becomes explored, and the
frontier is kept: what it lists has just been accounted for. -/
theorem frontier_retreat {name : String} {i : InterfaceDef} {c c₁ : Checker} {guard : Guard}
    (hsome : w.resolve name = some (.interface i)) (hkey : i.fqn = name)
    (hpath : guard.path = i.fqn :: c.guard.path) (hpath₁ : c₁.guard.path = guard.path)
    (hexceeded : c₁.guard.exceeded = false)
    (inner : Exhausts w target i.interfaces { c with guard } c₁) :
    (c₁.retreat c.guard i.fqn false).explored = name :: c₁.explored ∧
    Frontier w target (c₁.retreat c.guard i.fqn false) := by
  have hexplored : (c₁.retreat c.guard i.fqn false).explored = name :: c₁.explored := by
    simp [retreat, hexceeded, hkey]
  refine ⟨hexplored, fun x hx y edge => ?_⟩
  -- What was accounted for inside is so outside: only `name` leaves the path.
  have outside {z : String} (hz : Accounted w c₁ z) :
      Accounted w (c₁.retreat c.guard i.fqn false) z := by
    refine hz.mono ?_ fun v hv => ?_
    · rw [hexplored]
      exact List.subset_cons_self _ _
    · rw [hpath₁, hpath, hkey] at hv
      rcases List.mem_cons.1 hv with rfl | hv
      · exact .inl (hexplored ▸ List.mem_cons_self)
      · exact .inr hv
  rw [hexplored] at hx
  rcases List.mem_cons.1 hx with rfl | hx
  · obtain ⟨j, hj, hy⟩ := edge
    rw [hsome] at hj
    cases hj
    exact ⟨(inner.names y hy).1, outside (inner.names y hy).2⟩
  · obtain ⟨hne, hy⟩ := inner.frontier x hx y edge
    exact ⟨hne, outside hy⟩

/-- A search in vain that no limit has cut keeps the frontier and
accounts for every name of its list. -/
theorem Search.exhausts (hw : w.WellKeyed) {names : List String} {c c' : Checker} {found : Bool}
    (h : Search w target names c found c') (hfound : found = false)
    (hexceeded : c'.guard.exceeded = false) (hfront : Frontier w target c) :
    Exhausts w target names c c' := by
  induction h with
  | exhausted => exact ⟨hfront, List.Subset.refl _, nofun⟩
  | hit | above => cases hfound
  | known hne hknown _ ih =>
    have rest := ih hfound hexceeded hfront
    exact rest.cons hne (.inl (rest.explored hknown)) (List.Subset.refl _)
  | unresolved hne _ hnone _ ih =>
    have rest := ih hfound hexceeded hfront
    exact rest.cons hne (.inr (.inr fun i hi => by rw [hnone] at hi; cases hi))
      (List.Subset.refl _)
  | other hne _ hsome hkind _ ih =>
    have rest := ih hfound hexceeded hfront
    exact rest.cons hne (.inr (.inr fun i hi => by rw [hsome] at hi; cases hi; exact hkind i rfl))
      (List.Subset.refl _)
  | @cycle name _ c _ _ i guard hne _ hsome henter search ih =>
    have hpath := (Guard.enter_denied henter nofun).1
    have rest := ih hfound hexceeded
      (hfront.of_path rfl (show c.guard.path ⊆ guard.path by rw [hpath]; exact List.Subset.refl _))
    have hname : name ∈ guard.path := by
      rw [hpath, ← hw name (.interface i) hsome]
      exact Guard.mem_path_of_enter_cycle henter
    exact rest.cons hne (.inr (.inl (search.path_eq ▸ hname))) (List.Subset.refl _)
  | @cut _ _ _ _ _ _ _ guard _ _ _ henter he search _ =>
    have hguard : guard.exceeded = false := search.exceeded_mono hexceeded
    rw [Guard.exceeded_enter henter, he, Bool.or_true] at hguard
    cases hguard
  | @failed name _ c c₁ _ _ i guard hne _ hsome henter inner search ihInner ih =>
    obtain ⟨-, hpath, -⟩ := Guard.enter_entered henter
    have hexceeded₁ : c₁.guard.exceeded = false := search.exceeded_mono hexceeded
    have hinner := ihInner rfl hexceeded₁
      (hfront.of_path rfl (show c.guard.path ⊆ guard.path by
        rw [hpath]; exact List.subset_cons_self _ _))
    obtain ⟨hexplored, hfront₁⟩ := frontier_retreat hsome (hw name (.interface i) hsome) hpath
      inner.path_eq hexceeded₁ hinner
    have rest := ih hfound hexceeded hfront₁
    refine rest.cons hne (.inl (rest.explored ?_)) ?_
    · rw [hexplored]
      exact List.mem_cons_self
    · rw [hexplored]
      exact List.subset_cons_of_subset _ hinner.explored

/-- A search in vain that starts afresh and that no limit has cut shows
that the target is out of reach. -/
theorem Search.not_leads (hw : w.WellKeyed) {names : List String} {c c' : Checker}
    (h : Search w target names c false c') (hexceeded : c'.guard.exceeded = false)
    (hpath : c.guard.path = []) (hexplored : c.explored = []) : ¬ w.Leads names target := by
  have hfront : Frontier w target c := by
    intro x hx
    rw [hexplored] at hx
    cases hx
  have done := h.exhausts hw rfl hexceeded hfront
  have hpath' : c'.guard.path = [] := h.path_eq.trans hpath
  -- With the path empty, an interface that is accounted for is explored.
  have closed : ∀ x y, (x ≠ target ∧ Accounted w c' x) → w.InterfaceEdge x y →
      y ≠ target ∧ Accounted w c' y := by
    rintro x y ⟨-, hx | hx | hx⟩ edge
    · exact done.frontier x hx y edge
    · rw [hpath'] at hx
      cases hx
    · obtain ⟨i, hi, -⟩ := edge
      exact absurd hi (hx i)
  rintro ⟨x, hx, path⟩
  exact (World.mem_of_interfacePath closed (done.names x hx) path).1 rfl

/-- What is inherited is found. Between two classes this holds whatever
the guard says, else unless a limit was hit. -/
theorem Comparison.found_of_inherits (hw : w.WellKeyed) {s t : String} {c : Checker} {found : Bool}
    {g : Guard} (h : Comparison w s t c found g) (hpath : c.guard.path = [])
    (hguard : (∃ l, w.resolve t = some (.class l)) ∨ g.exceeded = false) (hinh : w.Inherits s t) :
    found = true := by
  by_contra hfound
  rw [Bool.not_eq_true] at hfound
  obtain ⟨subDef, supDef, hsub, hsup, hsubKind, hsupKind, hkinds⟩ := hinh.kinds
  cases h with
  | unresolved hnone =>
    rcases hnone with hnone | hnone
    · rw [hsub] at hnone
      cases hnone
    · rw [hsup] at hnone
      cases hnone
  | unrelated hs ht hkind =>
    rw [hsub] at hs
    rw [hsup] at ht
    cases hs
    cases ht
    rcases hkind with hkind | hkind | hkind
    · exact hsubKind hkind
    · exact hsupKind hkind
    · exact hkinds hkind
  | classes hs ht =>
    obtain ⟨m, chain, base⟩ := (World.inherits_classes_iff hs ht).1 hinh
    have hmem := World.mem_lineage_of_wellKeyed hw (hw.resolve_fqn hs) chain
    have hany := List.any_eq_false.1 hfound m hmem
    simp [base] at hany
  | interfaces hs ht search =>
    have hexceeded := hguard.resolve_left (by rintro ⟨l, hl⟩; rw [ht] at hl; cases hl)
    subst hfound
    exact search.not_leads hw hexceeded hpath rfl
      (.of_listed List.mem_cons_self hs ((World.inherits_interfaces_iff hs ht).1 hinh))
  | implementation hs ht search =>
    have hexceeded := hguard.resolve_left (by rintro ⟨l, hl⟩; rw [ht] at hl; cases hl)
    subst hfound
    obtain ⟨m, chain, x, hx, path⟩ := (World.inherits_implementation_iff hs ht).1 hinh
    have hmem := World.mem_lineage_of_wellKeyed hw (hw.resolve_fqn hs) chain
    exact search.not_leads hw hexceeded hpath rfl ⟨x, List.mem_flatMap.2 ⟨m, hmem, hx⟩, path⟩

/-- Two classes are compared without a question to the guard. -/
theorem Comparison.guard_eq_of_classes {s t : String} {k l : ClassDef} {c : Checker} {found : Bool}
    {g : Guard} (h : Comparison w s t c found g) (hs : w.resolve s = some (.class k))
    (ht : w.resolve t = some (.class l)) : g = c.guard := by
  cases h with
  | unresolved | unrelated | classes => rfl
  | interfaces hs' =>
    rw [hs] at hs'
    cases hs'
  | implementation _ ht' =>
    rw [ht] at ht'
    cases ht'

/-- Two different names are compared as such. -/
theorem Descent.comparison {s t : String} {c : Checker} {found : Bool} {g : Guard}
    (h : Descent w (.named s) (.named t) c found g) (hne : s ≠ t) :
    Comparison w s t c found g := by
  cases h with
  | equal => exact absurd rfl hne
  | named _ names => exact names
  | shapes _ _ hnames => exact absurd rfl (hnames s t rfl)

end Checker

/-- A refusal between two different names is right, in every world whose
definitions are found under their own names. If both stand for classes,
no class of the base chain names the second one, however long the chain
is and whatever the limits are, since the guard is not asked. Otherwise
the second name is out of reach of the first, unless a limit has cut
the search: it is out of reach of what an interface lists, and of what
a class or any class of its base chain lists. -/
theorem not_ancestor_of_refused (w : World) (hw : w.WellKeyed) (c : Checker) (s t : String)
    (subDef supDef : TypeDef) (hs : w.resolve s = some subDef) (ht : w.resolve t = some supDef)
    (hne : s ≠ t) (hrefused : (c.ask w (some (.named s)) (some (.named t))).1 = false) :
    (∀ k l, subDef = .class k → supDef = .class l →
      (∀ m, w.BaseChain k m → m.base ≠ some t) ∧
      (c.ask w (some (.named s)) (some (.named t))).2.guard = c.guard.reset) ∧
    ((c.ask w (some (.named s)) (some (.named t))).2.guard.exceeded = false →
      (∀ i j, subDef = .interface i → supDef = .interface j → ¬ w.Leads i.interfaces t) ∧
      ∀ k j, subDef = .class k → supDef = .interface j →
        ∀ m, w.BaseChain k m → ¬ w.Leads m.interfaces t) := by
  have names := (Checker.descent_of_ask (w := w) (c := c) rfl rfl).comparison hne
  have refused
      (hguard : (∃ l, w.resolve t = some (.class l)) ∨
        (c.ask w (some (.named s)) (some (.named t))).2.guard.exceeded = false) :
      ¬ w.Inherits s t := by
    intro hinh
    have hfound := names.found_of_inherits hw rfl hguard hinh
    rw [hrefused] at hfound
    cases hfound
  refine ⟨?_, fun hexceeded => ⟨?_, ?_⟩⟩
  · rintro k l rfl rfl
    refine ⟨fun m chain base => ?_, names.guard_eq_of_classes hs ht⟩
    exact refused (.inl ⟨l, ht⟩) (.subclass hs ht chain base)
  · rintro i j rfl rfl leads
    exact refused (.inr hexceeded) (.subinterface hs ht leads)
  · rintro k j rfl rfl m chain leads
    exact refused (.inr hexceeded) (.implementation hs ht chain leads)

/-- A class whose base chain comes back to it. -/
def knottedDog : ClassDef where
  fqn := "pet.Dog"
  base := some "pet.Cat"
  interfaces := ["pet.Left"]

/-- Two classes that are each other's base, three interfaces on two
cycles that share one of them, and an interface that nobody lists. -/
def knottedPets : Assembly where
  name := "pet"
  types := [
    ("pet.Dog", .class knottedDog),
    ("pet.Cat", .class { fqn := "pet.Cat", base := some "pet.Dog", interfaces := ["pet.Far"] }),
    ("pet.Left", .interface { fqn := "pet.Left", interfaces := ["pet.Right", "pet.Far"] }),
    ("pet.Right", .interface { fqn := "pet.Right", interfaces := ["pet.Left"] }),
    ("pet.Far", .interface { fqn := "pet.Far", interfaces := ["pet.Left"] }),
    ("pet.Lone", .interface { fqn := "pet.Lone" })]

/-- The class is refused for the interface that nobody lists, no limit
is hit, and no class of the endless chain leads to that interface. -/
theorem not_ancestor_knottedPets :
    (Checker.new.ask (World.of knottedPets []) (some (.named "pet.Dog"))
      (some (.named "pet.Lone"))).1 = false ∧
    (Checker.new.ask (World.of knottedPets []) (some (.named "pet.Dog"))
      (some (.named "pet.Lone"))).2.guard.exceeded = false ∧
    ∀ m, (World.of knottedPets []).BaseChain knottedDog m →
      ¬ (World.of knottedPets []).Leads m.interfaces "pet.Lone" := by
  have hkeyed : (World.of knottedPets []).WellKeyed := World.wellKeyed_of (by decide +kernel)
  have hrefused : (Checker.new.ask (World.of knottedPets []) (some (.named "pet.Dog"))
      (some (.named "pet.Lone"))).1 = false := by decide +kernel
  have hexceeded : (Checker.new.ask (World.of knottedPets []) (some (.named "pet.Dog"))
      (some (.named "pet.Lone"))).2.guard.exceeded = false := by decide +kernel
  refine ⟨hrefused, hexceeded, ?_⟩
  exact ((not_ancestor_of_refused (World.of knottedPets []) hkeyed Checker.new "pet.Dog" "pet.Lone"
    (.class knottedDog) (.interface { fqn := "pet.Lone" }) rfl rfl (by decide) hrefused).2
    hexceeded).2 knottedDog { fqn := "pet.Lone" } rfl rfl

end OverrideCheck
