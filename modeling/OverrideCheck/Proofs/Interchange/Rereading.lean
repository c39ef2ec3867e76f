import OverrideCheck.Interchange.Assembly
import OverrideCheck.Proofs.Json.Rereading

/-!
# `OverrideCheck.Proofs.Interchange.Rereading`: assemblies are read as they were written

Every decoder of the interchange format rereads what is written for its
values: type references, members and definitions, and in the end whole
assemblies (`assembly_outline`). What is left out because it has its
default is read as the default.

Everything below a definition is read ahead, so the law of
`Proofs/Json/Rereading.lean` applies there. A type reference has a bound
of its own, and the bound is the largest room that there ever is.
-/

set_option autoImplicit false

namespace OverrideCheck.Interchange

open Json

/-! ## Type references -/

theorem typeRefJsons_eq_map (ts : List TypeRef) : typeRefJsons ts = ts.map typeRefJson := by
  induction ts with
  | nil => rfl
  | cons t ts ih => rw [typeRefJsons, ih, List.map_cons]

/-- A collection costs two containers. -/
theorem nesting_collection (kind : CollectionKind) (element : TypeRef) :
    (typeRefJson (.collection kind element)).nesting = (typeRefJson element).nesting + 2 := by
  simp [typeRefJson, nesting, membersNesting]

/-- A union costs three containers. -/
theorem nesting_union (ts : List TypeRef) :
    (typeRefJson (.union ts)).nesting = itemsNesting (typeRefJsons ts) + 3 := by
  simp [typeRefJson, nesting, membersNesting]

theorem nesting_intersection (ts : List TypeRef) :
    (typeRefJson (.intersection ts)).nesting = itemsNesting (typeRefJsons ts) + 3 := by
  simp [typeRefJson, nesting, membersNesting]

theorem rereads_collectionKind (depth : Nat) :
    Rereads (fun k : CollectionKind => .str k.name) collectionKind depth := by
  intro ctx k _ _
  cases k <;> rfl

/-- A collection is read from its kind and the type of its elements. -/
theorem collection_outline {inner : Decoder TypeRef} {depth : Nat}
    (hinner : Rereads typeRefJson inner depth) {ctx : Context} (hahead : ctx.ahead = true)
    (kind : CollectionKind) (element : TypeRef) (h : (typeRefJson element).nesting < depth) :
    (collection inner).decoder ctx
        (obj [("kind", .str kind.name), ("elementtype", typeRefJson element)]).outline
      = .ok (.collection kind element) := by
  have hmembers : (collection inner).Reads depth
      [("kind", .str kind.name), ("elementtype", typeRefJson element)] {}
      ⟨some kind, some element⟩ :=
    .cons (Layout.reads_required kind (rereads_collectionKind depth) rfl rfl rfl rfl)
      (Layout.reads_required element hinner rfl rfl rfl rfl)
  refine Layout.decoder_outline _ hmembers rfl hahead ?_
  simpa [membersNesting, nesting] using h

/-- A union or an intersection is read from its arms. -/
theorem arms_outline {inner : Decoder TypeRef} {depth : Nat}
    (hinner : Rereads typeRefJson inner depth) {ctx : Context} (hahead : ctx.ahead = true)
    (name : String) (make : List TypeRef → TypeRef) (ts : List TypeRef)
    (h : itemsNesting (typeRefJsons ts) + 1 < depth) :
    (arms name inner make).decoder ctx (obj [("types", .arr (typeRefJsons ts))]).outline
      = .ok (make ts) := by
  rw [typeRefJsons_eq_map] at h ⊢
  have hmembers : (arms name inner make).Reads depth [("types", .arr (ts.map typeRefJson))] none
      (some ts) :=
    Layout.reads_required ts hinner.list rfl rfl rfl rfl
  refine Layout.decoder_outline _ hmembers rfl hahead ?_
  simpa [membersNesting, nesting] using h

/-- Type references are reread, up to the bound on their depth. -/
theorem rereads_typeRefWithin (depth : Nat) :
    Rereads typeRefJson (typeRefWithin depth) depth := by
  -- The bound counts references and the hypothesis containers. A reference inside another one is
  -- at least two containers further in, so the bound is never the first to be reached.
  induction depth with
  | zero => exact fun _ _ _ h => absurd h (Nat.not_lt_zero _)
  | succ depth ih =>
    intro ctx t hahead h
    cases t with
    | primitive p =>
      cases p <;> exact choice_outline hahead rfl rfl
    | named fqn => exact choice_outline hahead rfl rfl
    | collection kind element =>
      have helement : (typeRefJson element).nesting < depth := by
        rw [nesting_collection] at h
        omega
      refine choice_outline hahead rfl ?_
      show Except.map id ((collection _).decoder ctx _) = _
      rw [collection_outline ih hahead kind element helement]
      rfl
    | union ts =>
      have harms : itemsNesting (typeRefJsons ts) + 1 < depth := by
        rw [nesting_union] at h
        omega
      refine choice_outline hahead rfl ?_
      show Except.map id ((arms _ _ _).decoder ctx _) = _
      rw [arms_outline ih hahead _ _ ts harms]
      rfl
    | intersection ts =>
      have harms : itemsNesting (typeRefJsons ts) + 1 < depth := by
        rw [nesting_intersection] at h
        omega
      refine choice_outline hahead rfl ?_
      show Except.map id ((arms _ _ _).decoder ctx _) = _
      rw [arms_outline ih hahead _ _ ts harms]
      rfl

theorem rereads_typeRef : Rereads typeRefJson typeRef (maxNesting + 1) :=
  rereads_typeRefWithin _

/-! ## Members that may be left out -/

/-- A flag as a draft holds it: nothing was written if it is off. -/
def flag? (b : Bool) : Option Bool := if b then some true else none

/-- A list as a draft holds it: nothing was written if it is empty. -/
def list? {α : Type} (as : List α) : Option (List α) := if as.isEmpty then none else some as

@[simp]
theorem getD_flag? (b : Bool) : (flag? b).getD false = b := by
  cases b <;> rfl

@[simp]
theorem getD_list? {α : Type} (as : List α) : (list? as).getD [] = as := by
  cases as <;> rfl

@[simp]
theorem join_map_some {α : Type} (v : Option α) : (v.map some).join = v := by
  cases v <;> rfl

section Omitted

-- What these lemmas ask of a field holds by evaluation once the layout and the draft are given.

variable {σ α β : Type} {l : Layout σ α} {name : String} {depth : Nat} {s t : σ}

theorem reads_flag {get : σ → Option Bool} {set : σ → Bool → σ} (put : σ → Option Bool → σ)
    (b : Bool) (hfield : l.field? name = some (.of name boolean get set)) (hfresh : get s = none)
    (hnone : put s none = s) (hsome : ∀ b, put s (some b) = set s b)
    (ht : Layout.fill put s (flag? b) = t) : l.Reads depth (flagJson name b) s t := by
  have hmember :=
    Layout.reads_member put (flag? b) (rereads_boolean depth) hfield hfresh hnone hsome ht
  cases b with
  | false => exact hmember
  | true => exact hmember

theorem reads_list {toJson : β → Json} {d : Decoder β} {get : σ → Option (List β)}
    {set : σ → List β → σ} (put : σ → Option (List β) → σ) (as : List β)
    (hd : Rereads toJson d depth) (hfield : l.field? name = some (.of name (list d) get set))
    (hfresh : get s = none) (hnone : put s none = s) (hsome : ∀ as, put s (some as) = set s as)
    (ht : Layout.fill put s (list? as) = t) : l.Reads depth (listJson name toJson as) s t := by
  have hmember := Layout.reads_member put (list? as) hd.list hfield hfresh hnone hsome ht
  cases as with
  | nil => exact hmember
  | cons a as => exact hmember

theorem reads_option {toJson : β → Json} {d : Decoder β} {get : σ → Option (Option β)}
    {set : σ → Option β → σ} (put : σ → Option (Option β) → σ) (v : Option β)
    (hd : Rereads toJson d depth) (hnull : ∀ b, (toJson b).outline ≠ .null)
    (hfield : l.field? name = some (.of name (optional d) get set)) (hfresh : get s = none)
    (hnone : put s none = s) (hsome : ∀ v, put s (some v) = set s v)
    (ht : Layout.fill put s (v.map some) = t) : l.Reads depth (optionJson name toJson v) s t := by
  have hmember :=
    Layout.reads_member put (v.map some) (hd.optional hnull) hfield hfresh hnone hsome ht
  cases v with
  | none => exact hmember
  | some b => exact hmember

end Omitted

/-! ## Members of definitions -/

theorem rereads_property : Rereads propertyJson property.decoder (maxNesting + 1) := by
  -- The draft has every field as it was written. Its members are read in the order of the fields,
  -- and then the defaults take the place of what was left out. The other records go the same way.
  refine Layout.rereads (fun p => ⟨some p.name, some p.type, flag? p.immutable, flag? p.isStatic,
    flag? p.optional, flag? p.isAbstract⟩) (fun p => ?_) (fun p => ?_)
  · simp only [List.append_assoc]
    exact .append (.cons (Layout.reads_required p.name (rereads_string _) rfl rfl rfl rfl)
      (Layout.reads_required p.type rereads_typeRef rfl rfl rfl rfl)) <|
      .append (reads_flag (fun s v => { s with immutable := v }) _
        rfl rfl rfl (fun _ => rfl) rfl) <|
      .append (reads_flag (fun s v => { s with isStatic := v }) _ rfl rfl rfl (fun _ => rfl) rfl) <|
      .append (reads_flag (fun s v => { s with optional := v }) _ rfl rfl rfl (fun _ => rfl) rfl) <|
      reads_flag (fun s v => { s with isAbstract := v }) _ rfl rfl rfl (fun _ => rfl) rfl
  · simp [property, required, bind, Except.bind, pure, Except.pure]

theorem rereads_parameter : Rereads parameterJson parameter.decoder (maxNesting + 1) := by
  refine Layout.rereads (fun p => ⟨some p.name, some p.type, flag? p.optional, flag? p.variadic⟩)
    (fun p => ?_) (fun p => ?_)
  · simp only [List.append_assoc]
    exact .append (.cons (Layout.reads_required p.name (rereads_string _) rfl rfl rfl rfl)
      (Layout.reads_required p.type rereads_typeRef rfl rfl rfl rfl)) <|
      .append (reads_flag (fun s v => { s with optional := v }) _ rfl rfl rfl (fun _ => rfl) rfl) <|
      reads_flag (fun s v => { s with variadic := v }) _ rfl rfl rfl (fun _ => rfl) rfl
  · simp [parameter, required, bind, Except.bind, pure, Except.pure]

theorem rereads_returnValue : Rereads returnValueJson returnValue.decoder (maxNesting + 1) := by
  refine Layout.rereads (fun r => ⟨some r.type, flag? r.optional⟩) (fun r => ?_) (fun r => ?_)
  · exact .cons (Layout.reads_required r.type rereads_typeRef rfl rfl rfl rfl) <|
      reads_flag (fun s v => { s with optional := v }) _ rfl rfl rfl (fun _ => rfl) rfl
  · simp [returnValue, required, bind, Except.bind, pure, Except.pure]

theorem rereads_method : Rereads methodJson method.decoder (maxNesting + 1) := by
  refine Layout.rereads (fun m => ⟨some m.name, m.returns.map some, list? m.parameters,
    flag? m.isStatic, flag? m.isAbstract⟩) (fun m => ?_) (fun m => ?_)
  · simp only [List.append_assoc, List.cons_append]
    exact .cons (Layout.reads_required m.name (rereads_string _) rfl rfl rfl rfl) <|
      .append (reads_option (fun s v => { s with returns := v }) _ rereads_returnValue
        (by simp [returnValueJson, outline]) rfl rfl rfl (fun _ => rfl) rfl) <|
      .append (reads_list (fun s v => { s with parameters := v }) _ rereads_parameter
        rfl rfl rfl (fun _ => rfl) rfl) <|
      .append (reads_flag (fun s v => { s with isStatic := v }) _ rfl rfl rfl (fun _ => rfl) rfl) <|
      reads_flag (fun s v => { s with isAbstract := v }) _ rfl rfl rfl (fun _ => rfl) rfl
  · simp [method, required, bind, Except.bind, pure, Except.pure]

theorem rereads_enumMember : Rereads enumMemberJson enumMember.decoder (maxNesting + 1) :=
  Layout.rereads (fun m => some m.name)
    (fun m => Layout.reads_required m.name (rereads_string _) rfl rfl rfl rfl) (fun _ => rfl)

/-! ## Definitions -/

/-- What is written for a definition besides its kind. -/
def recordMembers (d : TypeDef) : List (String × Json) :=
  match typeDefJson d with
  | .obj (_ :: members) => members
  | _ => []

theorem rereads_class :
    Rereads (fun c => .obj (recordMembers (.class c))) classDef.decoder (maxNesting + 1) := by
  refine Layout.rereads (fun c => ⟨some c.fqn, c.base.map some, list? c.interfaces,
    flag? c.isAbstract, list? c.properties, list? c.methods⟩) (fun c => ?_) (fun c => ?_)
  · simp only [recordMembers, typeDefJson, List.append_assoc]
    exact .cons (Layout.reads_required c.fqn (rereads_string _) rfl rfl rfl rfl) <|
      .append (reads_option (fun s v => { s with base := v }) _ (rereads_string _)
        (by simp [outline]) rfl rfl rfl (fun _ => rfl) rfl) <|
      .append (reads_list (fun s v => { s with interfaces := v }) _ (rereads_string _)
        rfl rfl rfl (fun _ => rfl) rfl) <|
      .append (reads_flag (fun s v => { s with isAbstract := v }) _
        rfl rfl rfl (fun _ => rfl) rfl) <|
      .append (reads_list (fun s v => { s with properties := v }) _ rereads_property
        rfl rfl rfl (fun _ => rfl) rfl) <|
      reads_list (fun s v => { s with methods := v }) _ rereads_method
        rfl rfl rfl (fun _ => rfl) rfl
  · simp [classDef, required, bind, Except.bind, pure, Except.pure]

theorem rereads_interface :
    Rereads (fun i => .obj (recordMembers (.interface i))) interfaceDef.decoder
      (maxNesting + 1) := by
  refine Layout.rereads (fun i => ⟨some i.fqn, list? i.interfaces, list? i.properties,
    list? i.methods⟩) (fun i => ?_) (fun i => ?_)
  · simp only [recordMembers, typeDefJson, List.append_assoc]
    exact .cons (Layout.reads_required i.fqn (rereads_string _) rfl rfl rfl rfl) <|
      .append (reads_list (fun s v => { s with interfaces := v }) _ (rereads_string _)
        rfl rfl rfl (fun _ => rfl) rfl) <|
      .append (reads_list (fun s v => { s with properties := v }) _ rereads_property
        rfl rfl rfl (fun _ => rfl) rfl) <|
      reads_list (fun s v => { s with methods := v }) _ rereads_method
        rfl rfl rfl (fun _ => rfl) rfl
  · simp [interfaceDef, required, bind, Except.bind, pure, Except.pure]

theorem rereads_enum :
    Rereads (fun e => .obj (recordMembers (.enum e))) enumDef.decoder (maxNesting + 1) := by
  refine Layout.rereads (fun e => ⟨some e.fqn, list? e.members⟩) (fun e => ?_) (fun e => ?_)
  · exact .cons (Layout.reads_required e.fqn (rereads_string _) rfl rfl rfl rfl) <|
      reads_list (fun s v => { s with members := v }) _ rereads_enumMember
        rfl rfl rfl (fun _ => rfl) rfl
  · simp [enumDef, required, bind, Except.bind, pure, Except.pure]

/-! ## No numbers, and one kind -/

section Free

variable {α : Type}

@[simp]
theorem numberFree_flagJson (name : String) (b : Bool) : MembersNumberFree (flagJson name b) := by
  cases b <;> simp [flagJson, MembersNumberFree, NumberFree]

theorem itemsNumberFree_map {toJson : α → Json} (h : ∀ a, (toJson a).NumberFree) (as : List α) :
    ItemsNumberFree (as.map toJson) := by
  induction as with
  | nil => trivial
  | cons a as ih => exact ⟨h a, ih⟩

theorem numberFree_listJson (name : String) {toJson : α → Json} (h : ∀ a, (toJson a).NumberFree)
    (as : List α) : MembersNumberFree (listJson name toJson as) := by
  unfold listJson
  split
  · trivial
  · exact ⟨itemsNumberFree_map h as, trivial⟩

theorem numberFree_optionJson (name : String) {toJson : α → Json} (h : ∀ a, (toJson a).NumberFree)
    (v : Option α) : MembersNumberFree (optionJson name toJson v) := by
  cases v with
  | none => trivial
  | some a => exact ⟨h a, trivial⟩

end Free

mutual

theorem numberFree_typeRefJson : ∀ t : TypeRef, (typeRefJson t).NumberFree
  | .primitive _ | .named _ => by simp [typeRefJson, NumberFree, MembersNumberFree]
  | .collection _ element => by
    simp [typeRefJson, NumberFree, MembersNumberFree, numberFree_typeRefJson element]
  | .union ts | .intersection ts => by
    simp [typeRefJson, NumberFree, MembersNumberFree, numberFree_typeRefJsons ts]

theorem numberFree_typeRefJsons : ∀ ts : List TypeRef, ItemsNumberFree (typeRefJsons ts)
  | [] => trivial
  | t :: ts => ⟨numberFree_typeRefJson t, numberFree_typeRefJsons ts⟩

end

theorem numberFree_propertyJson (p : Property) : (propertyJson p).NumberFree := by
  simp [propertyJson, NumberFree, MembersNumberFree, numberFree_typeRefJson]

theorem numberFree_parameterJson (p : Parameter) : (parameterJson p).NumberFree := by
  simp [parameterJson, NumberFree, MembersNumberFree, numberFree_typeRefJson]

theorem numberFree_returnValueJson (r : ReturnValue) : (returnValueJson r).NumberFree := by
  simp [returnValueJson, NumberFree, MembersNumberFree, numberFree_typeRefJson]

theorem numberFree_methodJson (m : Method) : (methodJson m).NumberFree := by
  simp [methodJson, NumberFree, MembersNumberFree,
    numberFree_optionJson _ numberFree_returnValueJson,
    numberFree_listJson _ numberFree_parameterJson]

theorem numberFree_str (s : String) : (Json.str s).NumberFree := trivial

theorem numberFree_recordMembers (d : TypeDef) : MembersNumberFree (recordMembers d) := by
  cases d with
  | «class» c =>
    simp [recordMembers, typeDefJson, NumberFree, MembersNumberFree,
      numberFree_optionJson _ numberFree_str, numberFree_listJson _ numberFree_str,
      numberFree_listJson _ numberFree_propertyJson, numberFree_listJson _ numberFree_methodJson]
  | interface i =>
    simp [recordMembers, typeDefJson, NumberFree, MembersNumberFree,
      numberFree_listJson _ numberFree_str, numberFree_listJson _ numberFree_propertyJson,
      numberFree_listJson _ numberFree_methodJson]
  | enum e =>
    have hmembers : ∀ m : EnumMember, (enumMemberJson m).NumberFree := fun _ => ⟨trivial, trivial⟩
    simp [recordMembers, typeDefJson, NumberFree, MembersNumberFree, numberFree_listJson _ hmembers]

section Lacking

variable {α : Type} {name key : String}

@[simp]
theorem lacks_flagJson (h : name ≠ key) (b : Bool) : Lacks key (flagJson name b) := by
  cases b <;> simp [flagJson, h]

@[simp]
theorem lacks_listJson (h : name ≠ key) (toJson : α → Json) (as : List α) :
    Lacks key (listJson name toJson as) := by
  cases as <;> simp [listJson, h]

@[simp]
theorem lacks_optionJson (h : name ≠ key) (toJson : α → Json) (v : Option α) :
    Lacks key (optionJson name toJson v) := by
  cases v <;> simp [optionJson, h]

end Lacking

/-- The kind is written once. -/
theorem lacks_kind (d : TypeDef) : Lacks "kind" (recordMembers d) := by
  cases d <;> simp [recordMembers, typeDefJson]

theorem typeDefJson_eq (d : TypeDef) :
    typeDefJson d = .obj (("kind", .str d.kind.name) :: recordMembers d) :=
  rfl

/-- What was written for a definition besides its kind is read as the
definition. -/
theorem recordOf_outline {ctx : Context} (hahead : ctx.ahead = true) (d : TypeDef)
    (h : (obj (recordMembers d)).nesting ≤ maxNesting) :
    recordOf d.kind ctx (obj (recordMembers d)).outline = .ok d := by
  have hdepth := Nat.lt_succ_of_le h
  cases d with
  | «class» c =>
    show Except.map _ (classDef.decoder ctx _) = _
    rw [rereads_class ctx c hahead hdepth]
    rfl
  | interface i =>
    show Except.map _ (interfaceDef.decoder ctx _) = _
    rw [rereads_interface ctx i hahead hdepth]
    rfl
  | enum e =>
    show Except.map _ (enumDef.decoder ctx _) = _
    rw [rereads_enum ctx e hahead hdepth]
    rfl

theorem find?_recordOf (k : TypeKind) :
    (TypeKind.all.map fun k => (k.name, recordOf k)).find? (·.1 = k.name)
      = some (k.name, recordOf k) := by
  cases k <;> rfl

/-- What was written for a definition is read again if there is room for
it. -/
theorem typeDef_outline {ctx : Context} (hahead : ctx.ahead = false) (hroom : ctx.room ≤ maxNesting)
    (d : TypeDef) :
    typeDef ctx (typeDefJson d).outline = granted ctx.room (typeDefJson d).nesting d := by
  rw [typeDefJson_eq]
  exact Tagged.decoder_outline hahead (find?_recordOf d.kind) (numberFree_recordMembers d)
    (lacks_kind d)
    fun inner hinner hfits => recordOf_outline hinner d (Nat.le_trans hfits hroom)

/-! ## Assemblies -/

theorem store_eq_append (key : String) (d : TypeDef) (types : List (String × TypeDef))
    (h : key ∉ types.map (·.1)) : Assembly.store key d types = types ++ [(key, d)] := by
  induction types with
  | nil => rfl
  | cons entry types ih =>
    simp only [List.map_cons, List.mem_cons, not_or] at h
    rw [Assembly.store_cons, if_neg (Ne.symm h.1), ih h.2]
    rfl

/-- Definitions under distinct keys are stored in their order. -/
theorem storeAll_eq_append (entries types : List (String × TypeDef))
    (h : ((types ++ entries).map (·.1)).Nodup) :
    Assembly.storeAll entries types = types ++ entries := by
  induction entries generalizing types with
  | nil => simp [Assembly.storeAll]
  | cons entry entries ih =>
    have hkey : entry.1 ∉ types.map (·.1) := by
      rw [List.map_append, List.nodup_append] at h
      exact fun hmem => h.2.2 _ hmem _ (by simp) rfl
    have hstore := ih (types ++ [entry]) (by simpa using h)
    show Assembly.storeAll entries (Assembly.store entry.1 entry.2 types) = _
    rw [store_eq_append _ _ _ hkey, hstore, List.append_assoc]
    rfl

theorem ofEntries_types (a : Assembly) : Assembly.ofEntries a.name a.version a.types = a := by
  have hstore := storeAll_eq_append a.types [] (by simpa using a.nodup)
  cases a
  simpa [Assembly.ofEntries] using hstore

/-- What was written for an assembly is read again if there is room for
it. -/
theorem assembly_outline {ctx : Context} (hahead : ctx.ahead = false)
    (hroom : ctx.room ≤ maxNesting) (a : Assembly) :
    assembly.decoder ctx (assemblyJson a).outline
      = granted ctx.room (assemblyJson a).nesting a := by
  refine enter_bind_granted hahead _ _ _ fun inner hinner hlt => ?_
  have htypes := entries_outline hinner a.types fun deeper hdeeper hless e _ =>
    typeDef_outline hdeeper (by omega) e.2
  -- The members before the definitions are read without looking at the room.
  have hread : assembly.readMembers inner (membersOutline (("name", .str a.name)
        :: optionJson "version" .str a.version
        ++ [("types", .obj (a.types.map fun e => (e.1, typeDefJson e.2)))])) {}
      = (entries typeDef inner (obj (a.types.map fun e => (e.1, typeDefJson e.2))).outline
          >>= fun ts => .ok ⟨some a.name, a.version.map some, some ts⟩)
        >>= assembly.readMembers inner .close := by
    cases a.version <;> rfl
  have hcomplete : assembly.complete Layout.absentMember
      ⟨some a.name, a.version.map some, some a.types⟩ = .ok a := by
    simp [assembly, required, ofEntries_types, bind, Except.bind, pure, Except.pure]
  have hnesting : membersNesting (("name", .str a.name) :: optionJson "version" .str a.version
        ++ [("types", .obj (a.types.map fun e => (e.1, typeDefJson e.2)))])
      = (obj (a.types.map fun e => (e.1, typeDefJson e.2))).nesting := by
    cases a.version <;> simp [optionJson, membersNesting, nesting]
  show assembly.readMembers inner _ {} >>= assembly.complete Layout.absentMember = granted _ _ _
  rw [hnesting, hread, htypes, bind_assoc, bind_assoc]
  exact granted_bind_ok _ _ _ _ _ hcomplete

end OverrideCheck.Interchange
