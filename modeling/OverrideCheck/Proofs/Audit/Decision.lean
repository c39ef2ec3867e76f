import OverrideCheck.Proofs.Ancestry.Coverage
import OverrideCheck.Proofs.Audit.Contract

/-!
# `OverrideCheck.Proofs.Audit.Decision`: what an audit without findings means

An audit collects diagnostics in nested loops over definitions, members
and ancestors. That none are left at the end is a statement about the
assembly alone, and this module gives it, with nothing assumed of the
world.

`World.Conforms p d kind` is that statement for one definition. Its
ancestors could all be followed; the names that its members mention all
stand for something; and each member keeps the contract with every
declaration that it overrides. `World.Overridden` says which those are
in terms of the inheritance graph: the declaration of the nearest base
class that has the name, and those of all interfaces that can be
reached. `TypeRef.Mentions` says where a name occurs in a type.

The audit itself looks at the collected ancestors, which are the right
ones only if the walk was complete (`exists_mem_overridden_iff`). If it
was not, that alone is reported, so the equivalence holds either way:
`checkType_diagnostics_eq_nil_iff` for one definition,
`checkAssembly_diagnostics_eq_nil_iff` for an assembly.
-/

set_option autoImplicit false

namespace OverrideCheck

/-- The name occurs somewhere in the reference. -/
inductive TypeRef.Mentions (fqn : String) : TypeRef → Prop where
  | named : Mentions fqn (.named fqn)
  | element {kind : CollectionKind} {element : TypeRef} (h : Mentions fqn element) :
      Mentions fqn (.collection kind element)
  | unionArm {arms : List TypeRef} {arm : TypeRef} (harm : arm ∈ arms) (h : Mentions fqn arm) :
      Mentions fqn (.union arms)
  | intersectionArm {arms : List TypeRef} {arm : TypeRef} (harm : arm ∈ arms)
      (h : Mentions fqn arm) : Mentions fqn (.intersection arms)

/-- The name occurs in the type of the property, of the result or of a
parameter. -/
inductive Member.Mentions (fqn : String) : Member → Prop where
  | property {p : Property} (h : p.type.Mentions fqn) : Mentions fqn (.property p)
  | result {m : Method} {r : ReturnValue} (hr : m.returns = some r) (h : r.type.Mentions fqn) :
      Mentions fqn (.method m)
  | parameter {m : Method} {a : Parameter} (ha : a ∈ m.parameters) (h : a.type.Mentions fqn) :
      Mentions fqn (.method m)

/-- The declaration that a member of the name overrides in the
definition, and where it comes from. -/
inductive World.Overridden (w : World) (d : TypeDef) (name : String) : Origin → Member → Prop where
  /-- What the nearest base class that has the name declares under it. -/
  | ofBase {c b : ClassDef} {o : Member} (hd : d = .class c)
      (nearest : w.NearestBase (fun k => (k.member? name).isSome = true) c b)
      (ho : b.member? name = some o) : Overridden w d name .baseClass o
  /-- What an interface above the definition declares under the name. -/
  | ofInterface {x : String} {i : InterfaceDef} {o : Member} (above : w.ListedAbove d x)
      (hi : w.resolve x = some (.interface i)) (ho : i.member? name = some o) :
      Overridden w d name .interface o

/-- The definition is one that an audit has nothing to say about. -/
structure World.Conforms (w : World) (p : Policy) (d : TypeDef) (declaredOn : DeclaringKind) :
    Prop where
  /-- Its ancestors could all be followed. -/
  complete : (Ancestors.collect w d).isComplete = true
  /-- Its members mention no name in vain. -/
  resolved : ∀ m ∈ d.members, ∀ fqn, m.Mentions fqn → (w.resolve fqn).isSome = true
  /-- Its members keep the contract with all that they override. -/
  contracts : ∀ m ∈ d.members, ∀ origin o, w.Overridden d m.name origin o →
    Contract (p.Permits w origin declaredOn) m o

namespace TypeRef

mutual

theorem mentions_of_mem_names {fqn : String} :
    ∀ {t : TypeRef}, fqn ∈ t.names → t.Mentions fqn
  | .primitive _, h => by simp [names] at h
  | .named _, h => by
    rw [names, List.mem_singleton] at h
    exact h ▸ .named
  | .collection _ element, h => .element (mentions_of_mem_names (t := element) h)
  | .union arms, h => by
    obtain ⟨arm, harm, hmentions⟩ := exists_mentions_of_mem_names arms h
    exact .unionArm harm hmentions
  | .intersection arms, h => by
    obtain ⟨arm, harm, hmentions⟩ := exists_mentions_of_mem_names arms h
    exact .intersectionArm harm hmentions

theorem exists_mentions_of_mem_names {fqn : String} :
    ∀ arms : List TypeRef, fqn ∈ namesOfArms arms → ∃ arm ∈ arms, arm.Mentions fqn
  | [], h => by simp [namesOfArms] at h
  | arm :: arms, h => by
    rw [namesOfArms, List.mem_append] at h
    rcases h with h | h
    · exact ⟨arm, List.mem_cons_self, mentions_of_mem_names h⟩
    · obtain ⟨other, hother, hmentions⟩ := exists_mentions_of_mem_names arms h
      exact ⟨other, List.mem_cons_of_mem _ hother, hmentions⟩

end

/-- The names of a reference are those that occur in it. -/
theorem mem_names_iff {fqn : String} {t : TypeRef} : fqn ∈ t.names ↔ t.Mentions fqn := by
  refine ⟨mentions_of_mem_names, fun h => ?_⟩
  induction h with
  | named => exact List.mem_singleton_self _
  | element _ ih => exact ih
  | unionArm harm _ ih | intersectionArm harm _ ih =>
    rw [names, namesOfArms_eq_flatMap]
    exact List.mem_flatMap.2 ⟨_, harm, ih⟩

end TypeRef

theorem Member.mentions_iff {fqn : String} {m : Member} :
    m.Mentions fqn ↔ ∃ t ∈ m.typeRefs, fqn ∈ t.names := by
  constructor
  · rintro (⟨h⟩ | ⟨hr, h⟩ | ⟨ha, h⟩)
    · exact ⟨_, List.mem_singleton_self _, TypeRef.mem_names_iff.2 h⟩
    · refine ⟨_, List.mem_append_left _ ?_, TypeRef.mem_names_iff.2 h⟩
      simp [Method.returnType, hr]
    · exact ⟨_, List.mem_append_right _ (List.mem_map_of_mem ha), TypeRef.mem_names_iff.2 h⟩
  · rintro ⟨t, ht, hfqn⟩
    have h := TypeRef.mem_names_iff.1 hfqn
    cases m with
    | property p =>
      rw [List.mem_singleton.1 ht] at h
      exact .property h
    | method m =>
      rcases List.mem_append.1 ht with ht | ht
      · obtain ⟨r, hr, rfl⟩ := Option.map_eq_some_iff.1 (Option.mem_toList.1 ht)
        exact .result hr h
      · obtain ⟨a, ha, rfl⟩ := List.mem_map.1 ht
        exact .parameter ha h

namespace Audit

variable {p : Policy} {w : World} {d : TypeDef}

theorem distinct_eq_nil_iff {names : List String} : distinct names = [] ↔ names = [] := by
  cases names <;> simp [distinct, distinct.go]

/-- Something is reported about the ancestors unless all could be
followed. -/
theorem ancestorDiagnostics_eq_nil_iff {fqn : String} {a : Ancestors} :
    ancestorDiagnostics fqn a = [] ↔ a.isComplete = true := by
  simp [ancestorDiagnostics, distinct_eq_nil_iff, Ancestors.isComplete_iff]

/-- Something is reported about the types of a member unless all names
in them stand for something. -/
theorem memberDiagnostics_eq_nil_iff {typeFqn : String} {m : Member} :
    memberDiagnostics w typeFqn m = [] ↔
      ∀ fqn, m.Mentions fqn → (w.resolve fqn).isSome = true := by
  simp only [memberDiagnostics, unresolvedNames, List.map_eq_nil_iff, distinct_eq_nil_iff,
    List.filter_eq_nil_iff, List.mem_flatMap, Option.isNone_iff_eq_none,
    ← Option.isSome_iff_ne_none, Member.mentions_iff]

/-- What is overridden according to a complete collection of ancestors
is what is overridden according to the inheritance graph. -/
theorem exists_mem_overridden_iff {name : String} {origin : Origin} {o : Member}
    (hcomplete : (Ancestors.collect w d).isComplete = true) :
    (∃ owner, (owner, o, origin) ∈ overridden (Ancestors.collect w d) name) ↔
      w.Overridden d name origin o := by
  unfold overridden
  simp only [List.mem_append, Option.mem_toList, Option.bind_eq_some_iff, Option.map_eq_some_iff,
    List.mem_filterMap, Prod.mk.injEq]
  constructor
  · rintro ⟨owner, ⟨b, hb, o', ho, rfl, rfl, rfl⟩ | ⟨i, hi, o', ho, rfl, rfl, rfl⟩⟩
    · obtain ⟨c, rfl⟩ := Ancestors.exists_class_of_mem_bases (List.mem_of_find?_eq_some hb)
      exact .ofBase rfl ((Ancestors.baseDeclaring?_iff hcomplete).1 hb) ho
    · obtain ⟨x, habove, hx⟩ :=
        (Ancestors.mem_interfaces_iff hcomplete).1 (List.mem_of_mem_filter hi)
      exact .ofInterface habove hx ho
  · rintro (⟨rfl, nearest, ho⟩ | ⟨habove, hi, ho⟩)
    · exact ⟨_, .inl ⟨_, (Ancestors.baseDeclaring?_iff hcomplete).2 nearest, _, ho, rfl, rfl, rfl⟩⟩
    · have hmem := (Ancestors.mem_interfaces_iff hcomplete).2 ⟨_, habove, hi⟩
      refine ⟨_, .inr ⟨_, List.mem_filter.2 ⟨hmem, ?_⟩, _, ho, rfl, rfl, rfl⟩⟩
      rw [ho]
      rfl

/-- Nothing is reported about a member exactly if it mentions no name in
vain and keeps the contract with all that it overrides. -/
theorem checkMember_diagnostics_eq_nil_iff {declaredOn : DeclaringKind} {m : Member}
    (hcomplete : (Ancestors.collect w d).isComplete = true) :
    (checkMember p w d declaredOn (Ancestors.collect w d) m).diagnostics = [] ↔
      (∀ fqn, m.Mentions fqn → (w.resolve fqn).isSome = true) ∧
      ∀ origin o, w.Overridden d m.name origin o →
        Contract (p.Permits w origin declaredOn) m o := by
  have hsplit : (checkMember p w d declaredOn (Ancestors.collect w d) m).diagnostics = [] ↔
      memberDiagnostics w d.fqn m = [] ∧
      ∀ pair ∈ pairs d declaredOn (Ancestors.collect w d) m, pair.violations p w = [] := by
    simp only [checkMember, Findings.diagnostics_append, Findings.diagnostics_concat,
      List.append_eq_nil_iff, List.flatMap_eq_nil_iff, List.forall_mem_map,
      OverridePair.findings_diagnostics]
  rw [hsplit, memberDiagnostics_eq_nil_iff]
  -- The names of the two types in a pair play no part in its contract.
  refine and_congr_right fun _ => ⟨fun h origin o ho => ?_, fun h pair hpair => ?_⟩
  · obtain ⟨owner, hmem⟩ := (exists_mem_overridden_iff hcomplete).2 ho
    exact OverridePair.violations_eq_nil_iff.1 (h _ (List.mem_map_of_mem hmem))
  · obtain ⟨⟨owner, o, origin⟩, hmem, rfl⟩ := List.mem_map.1 hpair
    exact OverridePair.violations_eq_nil_iff.2
      (h origin o ((exists_mem_overridden_iff hcomplete).1 ⟨owner, hmem⟩))

/-- Nothing is reported about a definition exactly if it conforms, or
declares no members. -/
theorem checkType_diagnostics_eq_nil_iff :
    (checkType p w d).diagnostics = [] ↔
      ∀ declaredOn, declaringKind? d = some declaredOn → w.Conforms p d declaredOn := by
  unfold checkType
  split
  · next hkind => simp [hkind]
  · next declaredOn hkind =>
    simp only [Findings.diagnostics_append, Findings.diagnostics_concat, List.append_eq_nil_iff,
      List.flatMap_eq_nil_iff, List.forall_mem_map, ancestorDiagnostics_eq_nil_iff, hkind]
    constructor
    · rintro ⟨hcomplete, hmembers⟩ _ ⟨⟩
      have each := fun m hm => (checkMember_diagnostics_eq_nil_iff hcomplete).1 (hmembers m hm)
      exact ⟨hcomplete, fun m hm => (each m hm).1, fun m hm => (each m hm).2⟩
    · intro h
      obtain ⟨hcomplete, hresolved, hcontracts⟩ := h declaredOn rfl
      exact ⟨hcomplete, fun m hm => (checkMember_diagnostics_eq_nil_iff hcomplete).2
        ⟨hresolved m hm, hcontracts m hm⟩⟩

theorem checkAssembly_diagnostics_eq_nil_iff_checkType {a : Assembly} {deps : Dependencies} :
    (checkAssembly p a deps).diagnostics = [] ↔
      ∀ d ∈ a.definitions, (checkType p (World.of a deps) d).diagnostics = [] := by
  simp only [checkAssembly, Findings.diagnostics_concat, List.flatMap_eq_nil_iff,
    List.forall_mem_map]

/-- An audit reports nothing exactly if every class and every interface
of the assembly conforms: its ancestors could all be followed, its
members mention no name in vain, and each of them keeps the contract
with the declaration of the nearest base class that has its name and
with those of all interfaces that can be reached. -/
theorem checkAssembly_diagnostics_eq_nil_iff (p : Policy) (a : Assembly) (deps : Dependencies) :
    (checkAssembly p a deps).diagnostics = [] ↔
      ∀ d ∈ a.definitions, ∀ declaredOn, declaringKind? d = some declaredOn →
        (World.of a deps).Conforms p d declaredOn := by
  rw [checkAssembly_diagnostics_eq_nil_iff_checkType]
  exact forall₂_congr fun d _ => checkType_diagnostics_eq_nil_iff

end Audit

end OverrideCheck
