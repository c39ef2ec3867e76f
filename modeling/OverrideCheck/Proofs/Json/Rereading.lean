import OverrideCheck.Json.Record
import OverrideCheck.Proofs.Json.Nesting

/-!
# `OverrideCheck.Proofs.Json.Rereading`: decoders that read what was written

A decoder rereads a form of writing if it makes the value again out of
the outline of what was written for it (`Rereads`). The law is about
parts of a text that were read ahead. There a decoder is not stopped by
the room that is left, only by a bound of its own on the depth of what
it reads.

Each way of building decoders keeps the law: lists, optional values,
choices and records. For a record the members are read one after the
other into a draft, so the law for records is put together from what
single members do to the draft (`Layout.Reads`).

A tagged record decides about its room. What was written for it is read
if there is room for all of it, and else it is malformed
(`Tagged.decoder_outline`). The same holds for a map of such records
(`entries_outline`).
-/

set_option autoImplicit false

namespace OverrideCheck.Json

variable {σ α β : Type}

/-- What is written for a value, and nests less deep than the bound, is
read as the value in a part that was read ahead. -/
def Rereads (toJson : α → Json) (d : Decoder α) (depth : Nat) : Prop :=
  ∀ (ctx : Context) (a : α), ctx.ahead = true → (toJson a).nesting < depth →
    d ctx (toJson a).outline = .ok a

/-- In a part that was read ahead, containers can be opened freely. -/
theorem Context.enter_ahead {ctx : Context} (h : ctx.ahead = true) : ctx.enter = .ok ctx := by
  simp [enter, h]

/-! ## Simple values, lists and choices -/

theorem rereads_string (depth : Nat) : Rereads str string depth :=
  fun _ _ _ _ => rfl

theorem rereads_boolean (depth : Nat) : Rereads bool boolean depth :=
  fun _ _ _ _ => rfl

theorem values_itemsOutline {toJson : α → Json} {d : Decoder α} {depth : Nat}
    (hd : Rereads toJson d depth) {ctx : Context} (hahead : ctx.ahead = true) (as : List α)
    (h : itemsNesting (as.map toJson) < depth) :
    (itemsOutline (as.map toJson)).values d ctx = .ok as := by
  induction as with
  | nil => rfl
  | cons a as ih =>
    simp only [List.map_cons, itemsNesting, Nat.max_lt] at h
    have hfirst := hd ctx a hahead h.1
    have hrest := ih h.2
    simp only [List.map_cons, itemsOutline, Items.values, hfirst, hrest]
    rfl

theorem Rereads.list {toJson : α → Json} {d : Decoder α} {depth : Nat}
    (hd : Rereads toJson d depth) : Rereads (fun as => arr (as.map toJson)) (list d) depth := by
  intro ctx as hahead h
  have hvalues := values_itemsOutline hd hahead as (Nat.lt_of_succ_lt h)
  simp only [outline, Json.list, Context.enter_ahead hahead]
  exact hvalues

/-- An optional value is read as one, if it is not written as null. -/
theorem Rereads.optional {toJson : α → Json} {d : Decoder α} {depth : Nat}
    (hd : Rereads toJson d depth) (hnull : ∀ a, (toJson a).outline ≠ .null) :
    Rereads (fun v : Option α => v.elim null toJson) (optional d) depth := by
  intro ctx v hahead h
  cases v with
  | none => rfl
  | some a =>
    have hread := hd ctx a hahead h
    have hoptional : Json.optional d ctx (toJson a).outline
        = (d ctx (toJson a).outline).map some := by
      cases ho : (toJson a).outline with
      | null => exact absurd ho (hnull a)
      | _ => rfl
    show Json.optional d ctx (toJson a).outline = _
    rw [hoptional, hread]
    rfl

/-- A choice that is written as an object with its name for the only
key. -/
theorem choice_outline {variants : List (Variant α)} {v : Variant α} {name : String}
    {payload : Json} {ctx : Context} {a : α} (hahead : ctx.ahead = true)
    (hpick : pick variants name = .ok v)
    (hread : v.read ctx (some payload.outline) = .ok a) :
    choice variants ctx (obj [(name, payload)]).outline = .ok a := by
  simp only [outline, membersOutline, choice, Context.enter_ahead hahead]
  show (if ctx.ahead then chooseAhead variants ctx (.member (some name) payload.outline .close)
    else _) = _
  simp only [hahead, if_true, chooseAhead, hpick]
  exact hread

/-! ## Records -/

namespace Layout

/-- Members that turn one draft into another when they are read, with
any others behind them. -/
def Reads (l : Layout σ α) (depth : Nat) (members : List (String × Json)) (s t : σ) : Prop :=
  ∀ (ctx : Context) (rest : List (String × Json)), ctx.ahead = true →
    membersNesting members < depth →
    l.readMembers ctx (membersOutline (members ++ rest)) s
      = l.readMembers ctx (membersOutline rest) t

theorem Reads.append {l : Layout σ α} {depth : Nat} {ms ns : List (String × Json)} {s t u : σ}
    (hms : l.Reads depth ms s t) (hns : l.Reads depth ns t u) : l.Reads depth (ms ++ ns) s u := by
  intro ctx rest hahead h
  rw [membersNesting_append, Nat.max_lt] at h
  rw [List.append_assoc, hms ctx (ns ++ rest) hahead h.1, hns ctx rest hahead h.2]

/-- A draft with one field as it was written, or absent. It is a
definition of its own to keep the drafts of a long record small. -/
def fill (put : σ → Option β → σ) (s : σ) (v : Option β) : σ := put s v

/-- A field that may be left out. -/
theorem reads_member {l : Layout σ α} {name : String} {d : Decoder β} {get : σ → Option β}
    {set : σ → β → σ} {toJson : β → Json} {depth : Nat} {s t : σ} (put : σ → Option β → σ)
    (v : Option β) (hd : Rereads toJson d depth)
    (hfield : l.field? name = some (.of name d get set)) (hfresh : get s = none)
    (hnone : put s none = s) (hsome : ∀ b, put s (some b) = set s b) (ht : fill put s v = t) :
    l.Reads depth (v.toList.map fun b => (name, toJson b)) s t := by
  intro ctx rest hahead h
  cases v with
  | none =>
    rw [← ht, fill, hnone]
    rfl
  | some b =>
    have hb : (toJson b).nesting < depth := by simpa [membersNesting] using h
    have hunset : (Field.of name d get set).isSet s = false := by simp [Field.of, hfresh]
    have hread : (Field.of name d get set).read ctx (toJson b).outline s = .ok t := by
      simp only [Field.of, hd ctx b hahead hb, ← ht, fill, hsome]
      rfl
    simp only [Option.toList_some, List.map_cons, List.map_nil, List.cons_append, List.nil_append,
      membersOutline, readMembers, hfield, hunset, hread]
    rfl

theorem Reads.cons {l : Layout σ α} {depth : Nat} {m : String × Json} {ms : List (String × Json)}
    {s t u : σ} (hm : l.Reads depth [m] s t) (hms : l.Reads depth ms t u) :
    l.Reads depth (m :: ms) s u :=
  hm.append hms

/-- A field that is always written. -/
theorem reads_required {l : Layout σ α} {name : String} {d : Decoder β} {get : σ → Option β}
    {set : σ → β → σ} {toJson : β → Json} {depth : Nat} {s t : σ} {j : Json} (b : β)
    (hd : Rereads toJson d depth) (hj : toJson b = j)
    (hfield : l.field? name = some (.of name d get set)) (hfresh : get s = none)
    (hset : set s b = t) : l.Reads depth [(name, j)] s t := by
  rw [← hj]
  exact reads_member (fun s v => v.elim s (set s)) (some b) hd hfield hfresh rfl (fun _ => rfl) hset

/-- A record is read if its members fill a draft that can be
completed. -/
theorem decoder_outline {l : Layout σ α} {depth : Nat} {ms : List (String × Json)} {a : α}
    {ctx : Context} (s : σ) (hread : l.Reads depth ms l.start s)
    (hcomplete : l.complete absentMember s = .ok a) (hahead : ctx.ahead = true)
    (h : membersNesting ms < depth) : l.decoder ctx (obj ms).outline = .ok a := by
  have hmembers := hread ctx [] hahead h
  rw [List.append_nil] at hmembers
  simp only [outline, decoder, Context.enter_ahead hahead]
  show (l.readMembers ctx (membersOutline ms) l.start >>= l.complete absentMember) = _
  rw [hmembers]
  exact hcomplete

/-- A record is reread if the members of each value fill a draft that is
completed to the value. -/
theorem rereads {l : Layout σ α} {depth : Nat} {toMembers : α → List (String × Json)}
    (draft : α → σ) (hread : ∀ a, l.Reads depth (toMembers a) l.start (draft a))
    (hcomplete : ∀ a, l.complete absentMember (draft a) = .ok a) :
    Rereads (fun a => obj (toMembers a)) l.decoder depth :=
  fun _ a hahead h => decoder_outline (draft a) (hread a) (hcomplete a) hahead (Nat.lt_of_succ_lt h)

end Layout

/-! ## Readers that decide about room -/

/-- What a reader with so much room makes of a value that was written
and nests so deep. -/
def granted (room n : Nat) (a : α) : Except Fault α :=
  if n ≤ room then .ok a else .error (.cut .malformed)

/-- Two values in a row fit if each of them does. -/
theorem granted_bind (room m n : Nat) (a : α) (b : β) (f : α → Except Fault β)
    (hf : f a = granted room n b) : granted room m a >>= f = granted room (max m n) b := by
  unfold granted
  by_cases hm : m ≤ room
  · have hmax : max m n ≤ room ↔ n ≤ room := by omega
    simp only [hm, if_true, hmax]
    exact hf
  · have hmax : ¬ max m n ≤ room := by omega
    simp only [hm, hmax, if_false]
    rfl

theorem granted_bind_ok (room n : Nat) (a : α) (b : β) (f : α → Except Fault β) (hf : f a = .ok b) :
    granted room n a >>= f = granted room n b := by
  unfold granted
  split
  · exact hf
  · rfl

/-- A container takes one level of the room. -/
theorem enter_bind_granted {ctx : Context} (hahead : ctx.ahead = false) (n : Nat) (a : α)
    (f : Context → Except Fault α)
    (hf : ∀ inner, inner.ahead = false → inner.room < ctx.room →
      f inner = granted inner.room n a) :
    ctx.enter >>= f = granted ctx.room (n + 1) a := by
  cases hroom : ctx.room with
  | zero =>
    have hfull : ctx.enter = .error (.cut .malformed) := by simp [Context.enter, hahead, hroom]
    rw [hfull]
    rfl
  | succ room =>
    have henter : ctx.enter = .ok { ctx with room } := by simp [Context.enter, hahead, hroom]
    have hinner := hf { ctx with room } hahead (by simp [hroom])
    rw [henter]
    show f _ = _
    simp only [hinner, granted, Nat.succ_le_succ_iff]

/-- The values of a map, written one after the other. -/
theorem entries_membersOutline {toJson : α → Json} {d : Decoder α} {ctx : Context}
    (es : List (String × α))
    (h : ∀ e ∈ es, d ctx (toJson e.2).outline = granted ctx.room (toJson e.2).nesting e.2) :
    (membersOutline (es.map fun e => (e.1, toJson e.2))).entries d ctx
      = granted ctx.room (membersNesting (es.map fun e => (e.1, toJson e.2))) es := by
  induction es with
  | nil => simp [membersOutline, Members.entries, membersNesting, granted]
  | cons e es ih =>
    have hfirst := h e (by simp)
    have hrest := ih fun e' he' => h e' (by simp [he'])
    simp only [List.map_cons, membersOutline, Members.entries, membersNesting, hfirst]
    refine granted_bind _ _ _ _ _ _ ?_
    rw [hrest]
    exact granted_bind_ok _ _ _ _ _ rfl

theorem entries_outline {toJson : α → Json} {d : Decoder α} {ctx : Context}
    (hahead : ctx.ahead = false) (es : List (String × α))
    (h : ∀ inner : Context, inner.ahead = false → inner.room < ctx.room → ∀ e ∈ es,
      d inner (toJson e.2).outline = granted inner.room (toJson e.2).nesting e.2) :
    entries d ctx (obj (es.map fun e => (e.1, toJson e.2))).outline
      = granted ctx.room (obj (es.map fun e => (e.1, toJson e.2))).nesting es := by
  refine enter_bind_granted hahead _ _ _ fun inner hinner hroom => ?_
  exact entries_membersOutline es (h inner hinner hroom)

/-- None of the members has the name. -/
def Lacks (name : String) (members : List (String × Json)) : Prop := ∀ m ∈ members, m.1 ≠ name

@[simp]
theorem lacks_nil (name : String) : Lacks name [] := by simp [Lacks]

@[simp]
theorem lacks_cons (name : String) (m : String × Json) (ms : List (String × Json)) :
    Lacks name (m :: ms) ↔ m.1 ≠ name ∧ Lacks name ms := by
  simp [Lacks]

@[simp]
theorem lacks_append (name : String) (ms ns : List (String × Json)) :
    Lacks name (ms ++ ns) ↔ Lacks name ms ∧ Lacks name ns := by
  simp [Lacks, or_imp, forall_and]

namespace Tagged

/-- Members without the tag are read ahead if there is room for them. -/
theorem readMembers_outline (records : Tagged α) {tag : String} (room : Nat)
    (record : Option (Decoder α)) (ms : List (String × Json)) (hfree : MembersNumberFree ms)
    (htag : Lacks tag ms) :
    readMembers records tag room record (membersOutline ms)
      = granted room (membersNesting ms) (record, membersOutline ms) := by
  induction ms with
  | nil => simp [membersOutline, readMembers, membersNesting, granted]
  | cons m ms ih =>
    have hsettle : lift (m.2.outline.settle room) = granted room m.2.nesting () := by
      rw [settle_outline m.2 hfree.1 room, granted]
      split <;> rfl
    rw [lacks_cons] at htag
    have hrest := ih hfree.2 htag.2
    simp only [membersOutline, readMembers, if_neg htag.1, membersNesting, hsettle]
    refine granted_bind _ _ _ _ _ _ ?_
    rw [hrest]
    exact granted_bind_ok _ _ _ _ _ rfl

/-- A tagged record that is written with its tag first. -/
theorem decoder_outline {records : Tagged α} {name tag kind : String} {d : Decoder α}
    {ms : List (String × Json)} {ctx : Context} {a : α} (hahead : ctx.ahead = false)
    (hkind : records.find? (·.1 = kind) = some (kind, d)) (hfree : MembersNumberFree ms)
    (htag : Lacks tag ms)
    (hrecord : ∀ inner : Context, inner.ahead = true → (obj ms).nesting ≤ ctx.room →
      d inner (obj ms).outline = .ok a) :
    decoder records name tag ctx (obj ((tag, str kind) :: ms)).outline
      = granted ctx.room (obj ((tag, str kind) :: ms)).nesting a := by
  have hnesting : (obj ((tag, str kind) :: ms)).nesting = membersNesting ms + 1 := by
    simp [nesting, membersNesting]
  rw [hnesting]
  refine enter_bind_granted hahead _ _ _ fun inner hinner hroom => ?_
  have hrest := readMembers_outline records inner.room (some d) ms hfree htag
  have hread : readMembers records tag inner.room none (membersOutline ((tag, str kind) :: ms))
      = granted inner.room (membersNesting ms) (some d, membersOutline ms) := by
    simp only [membersOutline, outline, readMembers, if_true, Option.isSome_none,
      Bool.false_eq_true, if_false, ofTag, hkind]
    exact hrest
  rw [hread]
  unfold granted
  split
  · next hfits =>
    exact hrecord inner.readAhead rfl (Nat.lt_of_le_of_lt hfits hroom)
  · rfl

end Tagged

end OverrideCheck.Json
