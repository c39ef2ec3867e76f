import OverrideCheck.Proofs.Interchange.Rereading
import OverrideCheck.Proofs.Json.Shallow

/-!
# `OverrideCheck.Proofs.Interchange.Shallow`: what was read fits a text again

An assembly that was read from any text can be written again within the
bound on nesting (`nesting_le_of_parseAssembly`). No other form of a
type reference, a member or a definition takes fewer containers than
the one that is written, and what has its default is not written. The
only container that is written without having been read is the map of
the definitions, and it takes the second of all levels.
-/

set_option autoImplicit false

namespace OverrideCheck.Interchange

open Json

/-! ## Type references -/

/-- What is written for a type reference besides the name of its
variant. -/
def payload (t : TypeRef) : Json :=
  match typeRefJson t with
  | .obj [(_, value)] => value
  | _ => .null

theorem nesting_typeRefJson (t : TypeRef) : (typeRefJson t).nesting = (payload t).nesting + 1 := by
  cases t <;> simp [payload, typeRefJson, nesting, membersNesting]

/-- A variant of a type reference is shallow if what it holds is. -/
theorem shallow_variant {β : Type} (name : String) {d : Decoder β} {make : β → TypeRef}
    (hd : Shallow (fun b => payload (make b)) d) :
    (Variant.value name d make).Shallow typeRefJson := by
  refine Variant.shallow_value name fun ctx o b hahead hb => ?_
  rw [nesting_typeRefJson]
  exact Nat.succ_le_succ (hd ctx o b hahead hb)

theorem eq_some_of_required {β : Type} {absent : String → Fault} {name : String} {v : Option β}
    {b : β} (h : required absent name v = .ok b) : v = some b := by
  cases v with
  | none => cases h
  | some b' =>
    cases h
    rfl

theorem shallow_collection {inner : Decoder TypeRef} (hinner : Shallow typeRefJson inner) :
    Shallow payload (collection inner).decoder := by
  refine Layout.shallow_of_place typeRefJson (·.element) rfl ?_ ?_
  · intro ctx n hahead
    simp only [collection, List.forall_mem_cons]
    exact ⟨Field.keeps_of_unrelated fun _ _ hs => hs,
      Field.keeps_of_shallow hinner hahead fun _ _ ht _ => ht,
      List.forall_mem_nil _⟩
  · intro absent s t h
    obtain ⟨kind, -, h⟩ := bind_eq_ok.1 h
    obtain ⟨element, helement, h⟩ := bind_eq_ok.1 h
    cases h
    exact ⟨element, eq_some_of_required helement,
      by simp [payload, typeRefJson, nesting, membersNesting]⟩

theorem shallow_arms {inner : Decoder TypeRef} (hinner : Shallow typeRefJson inner) (name : String)
    {make : List TypeRef → TypeRef}
    (hmake : ∀ ts, payload (make ts) = .obj [("types", .arr (typeRefJsons ts))]) :
    Shallow payload (arms name inner make).decoder := by
  refine Layout.shallow_of_place (fun ts => .arr (ts.map typeRefJson)) id rfl ?_ ?_
  · intro ctx n hahead
    simp only [arms, List.forall_mem_cons]
    exact ⟨Field.keeps_of_shallow hinner.list hahead fun _ _ hts _ => hts,
      List.forall_mem_nil _⟩
  · intro absent s t h
    obtain ⟨ts, hts, h⟩ := bind_eq_ok.1 h
    cases h
    exact ⟨ts, eq_some_of_required hts,
      by simp [hmake, typeRefJsons_eq_map, nesting, membersNesting]⟩

theorem shallow_typeRefWithin (depth : Nat) : Shallow typeRefJson (typeRefWithin depth) := by
  induction depth with
  | zero =>
    intro ctx o t _ h
    cases h
  | succ depth ih =>
    refine shallow_choice ?_
    simp only [List.forall_mem_cons]
    exact ⟨shallow_variant _ (shallow_of_flat (fun _ => rfl) _),
      shallow_variant _ (shallow_of_flat (fun _ => rfl) _),
      shallow_variant _ (shallow_collection ih),
      shallow_variant _ (shallow_arms ih _ fun _ => rfl),
      shallow_variant _ (shallow_arms ih _ fun _ => rfl), List.forall_mem_nil _⟩

theorem shallow_typeRef : Shallow typeRefJson typeRef :=
  shallow_typeRefWithin _

/-! ## Members that may be left out -/

section Omitted

variable {β : Type} {n : Nat}

@[simp]
theorem membersNesting_flagJson (name : String) (b : Bool) :
    membersNesting (flagJson name b) = 0 := by
  cases b <;> rfl

theorem membersNesting_listJson_le {toJson : β → Json} {v : Option (List β)}
    (h : Fits (fun as => arr (as.map toJson)) n v) (name : String) :
    membersNesting (listJson name toJson (v.getD [])) ≤ n := by
  cases v with
  | none => exact Nat.zero_le n
  | some as =>
    rw [fits_some] at h
    unfold listJson
    split
    · exact Nat.zero_le n
    · simpa [membersNesting] using h

theorem membersNesting_optionJson_le {toJson : β → Json} {v : Option (Option β)}
    (h : Fits (fun v => v.elim null toJson) n v) (name : String) :
    membersNesting (optionJson name toJson v.join) ≤ n := by
  cases v with
  | none => exact Nat.zero_le n
  | some v =>
    cases v with
    | none => exact Nat.zero_le n
    | some b => simpa [optionJson, membersNesting] using h

end Omitted

/-! ## Members of definitions -/

theorem shallow_property : Shallow propertyJson property.decoder := by
  refine Layout.shallow_of_place typeRefJson (·.type) rfl ?_ ?_
  · intro ctx n hahead
    simp only [property, List.forall_mem_cons]
    exact ⟨Field.keeps_of_unrelated fun _ _ hs => hs,
      Field.keeps_of_shallow shallow_typeRef hahead fun _ _ ht _ => ht,
      Field.keeps_of_unrelated fun _ _ hs => hs, Field.keeps_of_unrelated fun _ _ hs => hs,
      Field.keeps_of_unrelated fun _ _ hs => hs, Field.keeps_of_unrelated fun _ _ hs => hs,
      List.forall_mem_nil _⟩
  · intro absent s p h
    obtain ⟨name, -, h⟩ := bind_eq_ok.1 h
    obtain ⟨type, htype, h⟩ := bind_eq_ok.1 h
    cases h
    exact ⟨type, eq_some_of_required htype, by simp [propertyJson, nesting, membersNesting]⟩

theorem shallow_parameter : Shallow parameterJson parameter.decoder := by
  refine Layout.shallow_of_place typeRefJson (·.type) rfl ?_ ?_
  · intro ctx n hahead
    simp only [parameter, List.forall_mem_cons]
    exact ⟨Field.keeps_of_unrelated fun _ _ hs => hs,
      Field.keeps_of_shallow shallow_typeRef hahead fun _ _ ht _ => ht,
      Field.keeps_of_unrelated fun _ _ hs => hs, Field.keeps_of_unrelated fun _ _ hs => hs,
      List.forall_mem_nil _⟩
  · intro absent s p h
    obtain ⟨name, -, h⟩ := bind_eq_ok.1 h
    obtain ⟨type, htype, h⟩ := bind_eq_ok.1 h
    cases h
    exact ⟨type, eq_some_of_required htype, by simp [parameterJson, nesting, membersNesting]⟩

theorem shallow_returnValue : Shallow returnValueJson returnValue.decoder := by
  refine Layout.shallow_of_place typeRefJson (·.type) rfl ?_ ?_
  · intro ctx n hahead
    simp only [returnValue, List.forall_mem_cons]
    exact ⟨Field.keeps_of_shallow shallow_typeRef hahead fun _ _ ht _ => ht,
      Field.keeps_of_unrelated fun _ _ hs => hs,
      List.forall_mem_nil _⟩
  · intro absent s r h
    obtain ⟨type, htype, h⟩ := bind_eq_ok.1 h
    cases h
    exact ⟨type, eq_some_of_required htype, by simp [returnValueJson, nesting, membersNesting]⟩

theorem shallow_method : Shallow methodJson method.decoder := by
  refine Layout.shallow (fun n s => Fits (fun v => v.elim null returnValueJson) n s.returns ∧
    Fits (fun ps => .arr (ps.map parameterJson)) n s.parameters)
    (fun n => ⟨fits_none _ n, fits_none _ n⟩) ?_ ?_
  · intro ctx n hahead
    simp only [method, List.forall_mem_cons]
    exact ⟨Field.keeps_of_unrelated fun _ _ hs => hs,
      Field.keeps_of_shallow shallow_returnValue.optional hahead fun _ _ hr hs => ⟨hr, hs.2⟩,
      Field.keeps_of_shallow shallow_parameter.list hahead fun _ _ hps hs => ⟨hs.1, hps⟩,
      Field.keeps_of_unrelated fun _ _ hs => hs, Field.keeps_of_unrelated fun _ _ hs => hs,
      List.forall_mem_nil _⟩
  · intro n absent s m hs h
    obtain ⟨name, -, h⟩ := bind_eq_ok.1 h
    cases h
    have hreturns := membersNesting_optionJson_le hs.1 "returns"
    have hparameters := membersNesting_listJson_le hs.2 "parameters"
    simp only [methodJson, nesting, membersNesting, membersNesting_append, membersNesting_flagJson,
      List.cons_append]
    omega

theorem shallow_enumMember : Shallow enumMemberJson enumMember.decoder := by
  refine Layout.shallow (fun _ _ => True) (fun _ => trivial)
    (fun _ _ _ _ _ _ _ _ _ _ _ => trivial) ?_
  intro n absent s m _ _
  simp [enumMemberJson, nesting, membersNesting]

/-! ## Definitions -/

theorem shallow_string : Shallow .str string :=
  shallow_of_flat (fun _ => rfl) _

theorem membersNesting_optionJson_str (name : String) (v : Option String) :
    membersNesting (optionJson name .str v) = 0 := by
  cases v <;> rfl

theorem shallow_class :
    Shallow (fun c => .obj (recordMembers (.class c))) classDef.decoder := by
  refine Layout.shallow (fun n s => Fits (fun is => .arr (is.map .str)) n s.interfaces ∧
    Fits (fun ps => .arr (ps.map propertyJson)) n s.properties ∧
    Fits (fun ms => .arr (ms.map methodJson)) n s.methods)
    (fun n => ⟨fits_none _ n, fits_none _ n, fits_none _ n⟩) ?_ ?_
  · intro ctx n hahead
    simp only [classDef, List.forall_mem_cons]
    exact ⟨Field.keeps_of_unrelated fun _ _ hs => hs, Field.keeps_of_unrelated fun _ _ hs => hs,
      Field.keeps_of_shallow shallow_string.list hahead fun _ _ his hs => ⟨his, hs.2⟩,
      Field.keeps_of_unrelated fun _ _ hs => hs,
      Field.keeps_of_shallow shallow_property.list hahead fun _ _ hps hs => ⟨hs.1, hps, hs.2.2⟩,
      Field.keeps_of_shallow shallow_method.list hahead fun _ _ hms hs => ⟨hs.1, hs.2.1, hms⟩,
      List.forall_mem_nil _⟩
  · intro n absent s c hs h
    obtain ⟨fqn, -, h⟩ := bind_eq_ok.1 h
    cases h
    have hinterfaces := membersNesting_listJson_le hs.1 "interfaces"
    have hproperties := membersNesting_listJson_le hs.2.1 "properties"
    have hmethods := membersNesting_listJson_le hs.2.2 "methods"
    have hbase := membersNesting_optionJson_str "base" s.base.join
    simp only [recordMembers, typeDefJson, nesting, membersNesting, membersNesting_append,
      membersNesting_flagJson, hbase]
    omega

theorem shallow_interface :
    Shallow (fun i => .obj (recordMembers (.interface i))) interfaceDef.decoder := by
  refine Layout.shallow (fun n s => Fits (fun is => .arr (is.map .str)) n s.interfaces ∧
    Fits (fun ps => .arr (ps.map propertyJson)) n s.properties ∧
    Fits (fun ms => .arr (ms.map methodJson)) n s.methods)
    (fun n => ⟨fits_none _ n, fits_none _ n, fits_none _ n⟩) ?_ ?_
  · intro ctx n hahead
    simp only [interfaceDef, List.forall_mem_cons]
    exact ⟨Field.keeps_of_unrelated fun _ _ hs => hs,
      Field.keeps_of_shallow shallow_string.list hahead fun _ _ his hs => ⟨his, hs.2⟩,
      Field.keeps_of_shallow shallow_property.list hahead fun _ _ hps hs => ⟨hs.1, hps, hs.2.2⟩,
      Field.keeps_of_shallow shallow_method.list hahead fun _ _ hms hs => ⟨hs.1, hs.2.1, hms⟩,
      List.forall_mem_nil _⟩
  · intro n absent s i hs h
    obtain ⟨fqn, -, h⟩ := bind_eq_ok.1 h
    cases h
    have hinterfaces := membersNesting_listJson_le hs.1 "interfaces"
    have hproperties := membersNesting_listJson_le hs.2.1 "properties"
    have hmethods := membersNesting_listJson_le hs.2.2 "methods"
    simp only [recordMembers, typeDefJson, nesting, membersNesting, membersNesting_append]
    omega

theorem shallow_enum :
    Shallow (fun e => .obj (recordMembers (.enum e))) enumDef.decoder := by
  refine Layout.shallow (fun n s => Fits (fun ms => .arr (ms.map enumMemberJson)) n s.members)
    (fun n => fits_none _ n) ?_ ?_
  · intro ctx n hahead
    simp only [enumDef, List.forall_mem_cons]
    exact ⟨Field.keeps_of_unrelated fun _ _ hs => hs,
      Field.keeps_of_shallow shallow_enumMember.list hahead fun _ _ hms _ => hms,
      List.forall_mem_nil _⟩
  · intro n absent s e hs h
    obtain ⟨fqn, -, h⟩ := bind_eq_ok.1 h
    cases h
    have hmembers := membersNesting_listJson_le hs "members"
    simp only [recordMembers, typeDefJson, nesting, membersNesting]
    omega

/-- The tag is written beside the members, not around them. -/
theorem nesting_typeDefJson (d : TypeDef) :
    (typeDefJson d).nesting = (obj (recordMembers d)).nesting := by
  simp [typeDefJson_eq, nesting, membersNesting]

theorem shallow_recordOf (k : TypeKind) : Shallow typeDefJson (recordOf k) := by
  intro ctx o d hahead h
  rw [nesting_typeDefJson]
  cases k with
  | classKind =>
    obtain ⟨c, hc, rfl⟩ := map_eq_ok.1 h
    exact shallow_class ctx o c hahead hc
  | interfaceKind =>
    obtain ⟨i, hi, rfl⟩ := map_eq_ok.1 h
    exact shallow_interface ctx o i hahead hi
  | enumKind =>
    obtain ⟨e, he, rfl⟩ := map_eq_ok.1 h
    exact shallow_enum ctx o e hahead he

/-- A definition that was read can be written where it was read. -/
theorem nesting_le_of_typeDef (ctx : Context) (o : Outline) (d : TypeDef)
    (hahead : ctx.ahead = false) (h : typeDef ctx o = .ok d) :
    (typeDefJson d).nesting ≤ ctx.room := by
  obtain ⟨kind, record, inner, part, hmem, hinner, hread, hfits⟩ :=
    Tagged.exists_of_decoder hahead h
  obtain ⟨k, -, hk⟩ := List.mem_map.1 hmem
  cases hk
  exact Nat.le_trans (shallow_recordOf k inner part d hinner hread) hfits

/-! ## Assemblies -/

theorem mem_of_mem_store {key : String} {d : TypeDef} {types : List (String × TypeDef)}
    {e : String × TypeDef} (h : e ∈ Assembly.store key d types) : e.2 = d ∨ e ∈ types := by
  induction types with
  | nil =>
    left
    simp_all [Assembly.store_nil]
  | cons entry types ih =>
    rw [Assembly.store_cons] at h
    split at h
    · rcases List.mem_cons.1 h with rfl | h
      · exact .inl rfl
      · exact .inr (List.mem_cons_of_mem _ h)
    · rcases List.mem_cons.1 h with rfl | h
      · exact .inr List.mem_cons_self
      · exact (ih h).imp_right (List.mem_cons_of_mem _)

/-- Only definitions that were given are stored. -/
theorem mem_of_mem_storeAll (entries : List (String × TypeDef)) {types : List (String × TypeDef)}
    {e : String × TypeDef} (h : e ∈ Assembly.storeAll entries types) :
    (∃ given ∈ entries, given.2 = e.2) ∨ e ∈ types := by
  induction entries generalizing types with
  | nil => exact .inr h
  | cons entry entries ih =>
    obtain ⟨given, hgiven, heq⟩ | hstored := ih h
    · exact .inl ⟨given, List.mem_cons_of_mem _ hgiven, heq⟩
    · rcases mem_of_mem_store hstored with heq | hmem
      · exact .inl ⟨entry, List.mem_cons_self, heq.symm⟩
      · exact .inr hmem

/-- The map of the definitions is always written. -/
theorem nesting_assemblyJson (a : Assembly) : (assemblyJson a).nesting
    = membersNesting (a.types.map fun e => (e.1, typeDefJson e.2)) + 2 := by
  simp [assemblyJson, nesting, membersNesting, membersNesting_optionJson_str]

/-- An assembly that was read has definitions that fit two containers
further in. -/
theorem nesting_add_two_le_of_assembly {ctx : Context} (hahead : ctx.ahead = false) {o : Outline}
    {a : Assembly} (h : assembly.decoder ctx o = .ok a) :
    ∀ e ∈ a.types, (typeDefJson e.2).nesting + 2 ≤ ctx.room := by
  obtain ⟨inner, n, absent, s, henter, -, hdone, hinv⟩ := Layout.exists_of_decoder h
  obtain ⟨hinner, hroom⟩ := Context.room_of_enter hahead henter
  have htypes : ∀ es ∈ s.types, ∀ e ∈ es, (typeDefJson e.2).nesting < inner.room := by
    refine hinv (fun s => ∀ es ∈ s.types, ∀ e ∈ es, (typeDefJson e.2).nesting < inner.room)
      (by simp [assembly]) ?_
    simp only [assembly, List.forall_mem_cons]
    refine ⟨Field.keeps_of_unrelated fun _ _ hs => hs, Field.keeps_of_unrelated fun _ _ hs => hs,
      Field.keeps_of fun o s es _ hes _ => ?_, List.forall_mem_nil _⟩
    rintro _ ⟨⟩
    exact nesting_lt_of_entries nesting_le_of_typeDef hinner hes
  obtain ⟨name, -, hdone⟩ := bind_eq_ok.1 hdone
  cases hdone
  intro e he
  -- A stored definition is one of those that were read.
  obtain ⟨given, hgiven, heq⟩ | hnone := mem_of_mem_storeAll (s.types.getD []) he
  · cases hs : s.types with
    | none => simp [hs] at hgiven
    | some es =>
      have hfits := htypes es hs given (by simpa [hs] using hgiven)
      rw [heq] at hfits
      omega
  · cases hnone

/-- An assembly that was read from a text can be written within the
bound on nesting. -/
theorem nesting_le_of_parseAssembly {text : String} {a : Assembly}
    (h : parseAssembly text = .ok a) : (assemblyJson a).nesting ≤ maxNesting := by
  obtain ⟨b, hread, h⟩ := bind_eq_ok.1 h
  split at h
  · cases h
    have hmembers : membersNesting (a.types.map fun e => (e.1, typeDefJson e.2))
        ≤ maxNesting - 2 := by
      rw [membersNesting_le_iff]
      intro m hm
      obtain ⟨e, he, rfl⟩ := List.mem_map.1 hm
      exact Nat.le_sub_of_add_le (nesting_add_two_le_of_assembly rfl hread e he)
    rw [nesting_assemblyJson]
    exact Nat.add_le_of_le_sub (by decide) hmembers
  · cases h

end OverrideCheck.Interchange
