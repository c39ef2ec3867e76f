import OverrideCheck.Json.Record
import OverrideCheck.Proofs.Json.Rereading

/-!
# `OverrideCheck.Proofs.Json.Shallow`: what was read nests no deeper than the text

A value can be given in several forms: a record as an array, a choice
by its name alone, fields in any order, with others among them. Written
again, the value takes one form. This module shows that it does not
nest deeper than the form that it was read from (`Shallow`), for parts
that were read ahead, and that a tagged record that was read fits the
room that it was read in (`Tagged.exists_of_decoder`).

For a record the draft carries the bound. `Layout.exists_of_decoder`
takes a successful reading apart: whatever holds of the empty draft and
is kept by every field holds of the draft that was completed.
-/

set_option autoImplicit false

namespace OverrideCheck.Json

variable {σ α β : Type}

/-- In a part that was read ahead, a value nests no deeper when it is
written than what it was read from. -/
def Shallow (toJson : α → Json) (d : Decoder α) : Prop :=
  ∀ (ctx : Context) (o : Outline) (a : α), ctx.ahead = true → d ctx o = .ok a →
    (toJson a).nesting ≤ o.nesting

/-! ## Lists, optional values and choices -/

/-- What is written without containers nests no deeper than anything. -/
theorem shallow_of_flat {toJson : α → Json} (h : ∀ a, (toJson a).nesting = 0) (d : Decoder α) :
    Shallow toJson d := by
  intro ctx o a _ _
  rw [h a]
  exact Nat.zero_le _

theorem nesting_le_of_values {toJson : α → Json} {d : Decoder α} (hd : Shallow toJson d)
    {ctx : Context} (hahead : ctx.ahead = true) : ∀ (items : Items) (as : List α),
    items.values d ctx = .ok as → itemsNesting (as.map toJson) ≤ items.nesting
  | .close, _, h => by
    cases h
    exact Nat.le_refl 0
  | .item value rest, _, h => by
    obtain ⟨a, ha, h⟩ := bind_eq_ok.1 h
    obtain ⟨as, has, h⟩ := bind_eq_ok.1 h
    cases h
    have hvalue := hd ctx value a hahead ha
    have hrest := nesting_le_of_values hd hahead rest as has
    simp only [List.map_cons, itemsNesting, Items.nesting]
    omega

theorem Shallow.list {toJson : α → Json} {d : Decoder α} (hd : Shallow toJson d) :
    Shallow (fun as => arr (as.map toJson)) (list d) := by
  intro ctx o as hahead h
  cases o with
  | arr items =>
    obtain ⟨inner, henter, h⟩ := bind_eq_ok.1 h
    rw [Context.enter_ahead hahead] at henter
    cases henter
    exact Nat.succ_le_succ (nesting_le_of_values hd hahead items as h)
  | _ => cases h

theorem Shallow.optional {toJson : α → Json} {d : Decoder α} (hd : Shallow toJson d) :
    Shallow (fun v : Option α => v.elim null toJson) (optional d) := by
  intro ctx o v hahead h
  cases v with
  | none => exact Nat.zero_le _
  | some a =>
    have ha : d ctx o = .ok a := by
      cases o with
      | null => cases h
      | _ =>
        obtain ⟨b, hb, hsome⟩ := map_eq_ok.1 h
        cases hsome
        exact hb
    exact hd ctx o a hahead ha

/-- A variant that holds a value, and that costs one container more
than the value when it is written. -/
def Variant.Shallow (toJson : α → Json) (v : Variant α) : Prop :=
  ∀ (ctx : Context) (payload : Option Outline) (a : α), ctx.ahead = true →
    v.read ctx payload = .ok a → ∃ o, payload = some o ∧ (toJson a).nesting ≤ o.nesting + 1

theorem Variant.shallow_value {toJson : α → Json} (name : String) {d : Decoder β} {make : β → α}
    (h : ∀ (ctx : Context) (o : Outline) (b : β), ctx.ahead = true → d ctx o = .ok b →
      (toJson (make b)).nesting ≤ o.nesting + 1) :
    (Variant.value name d make).Shallow toJson := by
  intro ctx payload a hahead hread
  cases payload with
  | none => cases hread
  | some o =>
    obtain ⟨b, hb, rfl⟩ := map_eq_ok.1 hread
    exact ⟨o, rfl, h ctx o b hahead hb⟩

theorem mem_of_pick {variants : List (Variant α)} {name : String} {v : Variant α}
    (h : pick variants name = .ok v) : v ∈ variants := by
  unfold pick at h
  split at h
  · next hfind =>
    cases h
    exact List.mem_of_find?_eq_some hfind
  · cases h

/-- A choice between variants that hold values. -/
theorem shallow_choice {toJson : α → Json} {variants : List (Variant α)}
    (hvariants : ∀ v ∈ variants, v.Shallow toJson) : Shallow toJson (choice variants) := by
  intro ctx o a hahead h
  cases o with
  | str text =>
    -- No variant is given by its name alone.
    cases text with
    | none => cases h
    | some name =>
      obtain ⟨v, hpick, hread⟩ := bind_eq_ok.1 h
      obtain ⟨o, hpayload, -⟩ := hvariants v (mem_of_pick hpick) ctx none a hahead hread
      cases hpayload
  | obj members =>
    obtain ⟨inner, henter, h⟩ := bind_eq_ok.1 h
    rw [Context.enter_ahead hahead] at henter
    cases henter
    rw [if_pos hahead] at h
    unfold chooseAhead at h
    split at h
    · next name value _ =>
      obtain ⟨v, hpick, hread⟩ := bind_eq_ok.1 h
      obtain ⟨o, hpayload, hle⟩ := hvariants v (mem_of_pick hpick) ctx (some value) a hahead hread
      cases hpayload
      simpa [Outline.nesting, Members.nesting] using hle
    · cases h
  | _ => cases h

/-! ## Records -/

/-- Reading the field from something that nests no deeper than the
number keeps what holds of the draft. -/
def Field.Keeps (f : Field σ) (ctx : Context) (n : Nat) (inv : σ → Prop) : Prop :=
  ∀ (o : Outline) (s t : σ), o.nesting ≤ n → inv s → f.read ctx o s = .ok t → inv t

theorem Field.keeps_of {name : String} {d : Decoder β} {get : σ → Option β} {set : σ → β → σ}
    {ctx : Context} {n : Nat} {inv : σ → Prop}
    (h : ∀ (o : Outline) (s : σ) (b : β), o.nesting ≤ n → d ctx o = .ok b → inv s → inv (set s b)) :
    (Field.of name d get set).Keeps ctx n inv := by
  intro o s t hle hs hread
  obtain ⟨b, hb, hset⟩ := bind_eq_ok.1 hread
  cases hset
  exact h o s b hle hb hs

/-- A field that has nothing to do with what holds of the draft. -/
theorem Field.keeps_of_unrelated {name : String} {d : Decoder β} {get : σ → Option β}
    {set : σ → β → σ} {ctx : Context} {n : Nat} {inv : σ → Prop}
    (h : ∀ (s : σ) (b : β), inv s → inv (set s b)) : (Field.of name d get set).Keeps ctx n inv :=
  keeps_of fun _ s b _ _ hs => h s b hs

/-- What a place of a draft holds, if anything, nests at most so deep
when it is written. -/
def Fits (toJson : β → Json) (n : Nat) (v : Option β) : Prop := ∀ b ∈ v, (toJson b).nesting ≤ n

@[simp]
theorem fits_none (toJson : β → Json) (n : Nat) : Fits toJson n none := by simp [Fits]

@[simp]
theorem fits_some (toJson : β → Json) (n : Nat) (b : β) :
    Fits toJson n (some b) ↔ (toJson b).nesting ≤ n := by
  simp [Fits]

theorem Field.keeps_of_shallow {name : String} {d : Decoder β} {get : σ → Option β}
    {set : σ → β → σ} {ctx : Context} {n : Nat} {inv : σ → Prop} {toJson : β → Json}
    (hd : Shallow toJson d) (hahead : ctx.ahead = true)
    (h : ∀ (s : σ) (b : β), Fits toJson n (some b) → inv s → inv (set s b)) :
    (Field.of name d get set).Keeps ctx n inv :=
  keeps_of fun o s b hle hb hs =>
    h s b ((fits_some toJson n b).2 (Nat.le_trans (hd ctx o b hahead hb) hle)) hs

namespace Layout

theorem mem_fields_of_field? {l : Layout σ α} {name : String} {f : Field σ}
    (h : l.field? name = some f) : f ∈ l.fields :=
  List.mem_of_find?_eq_some h

theorem inv_of_readMembers {l : Layout σ α} {ctx : Context} {n : Nat} {inv : σ → Prop}
    (hfields : ∀ f ∈ l.fields, f.Keeps ctx n inv) : ∀ (members : Members) (s t : σ),
    members.nesting ≤ n → inv s → l.readMembers ctx members s = .ok t → inv t
  | .close, _, _, _, hs, h => by
    cases h
    exact hs
  | .member (some name) value rest, s, t, hle, hs, h => by
    obtain ⟨hvalue, hrest⟩ := Nat.max_le.1 hle
    rw [readMembers] at h
    split at h
    · -- A member that names no field leaves the draft as it is.
      obtain ⟨_, _, h⟩ := bind_eq_ok.1 h
      exact inv_of_readMembers hfields rest s t hrest hs h
    · next f hfield =>
      split at h
      · cases h
      · obtain ⟨s', hread, h⟩ := bind_eq_ok.1 h
        have hs' := hfields f (mem_fields_of_field? hfield) value s s' hvalue hs hread
        exact inv_of_readMembers hfields rest s' t hrest hs' h

theorem inv_of_readItems {ctx : Context} {n : Nat} {inv : σ → Prop} : ∀ (fields : List (Field σ))
    (items : Items) (s : σ) (t : σ × Items), (∀ f ∈ fields, f.Keeps ctx n inv) →
    items.nesting ≤ n → inv s → readItems ctx fields items s = .ok t → inv t.1
  | [], _, _, _, _, _, hs, h => by
    cases h
    exact hs
  | _ :: _, .close, _, _, _, _, hs, h => by
    cases h
    exact hs
  | f :: fields, .item value rest, s, t, hfields, hle, hs, h => by
    obtain ⟨hvalue, hrest⟩ := Nat.max_le.1 hle
    obtain ⟨s', hread, h⟩ := bind_eq_ok.1 h
    have hs' := hfields f (by simp) value s s' hvalue hs hread
    exact inv_of_readItems fields rest s' t (fun g hg => hfields g (by simp [hg])) hrest hs' h

/-- What a record that was read comes from: a draft of which everything
holds that the fields keep. -/
theorem exists_of_decoder {l : Layout σ α} {ctx : Context} {o : Outline} {a : α}
    (h : l.decoder ctx o = .ok a) : ∃ (inner : Context) (n : Nat) (absent : String → Fault) (s : σ),
      ctx.enter = .ok inner ∧ o.nesting = n + 1 ∧ l.complete absent s = .ok a ∧
      ∀ inv : σ → Prop, inv l.start → (∀ f ∈ l.fields, f.Keeps inner n inv) → inv s := by
  cases o with
  | obj members =>
    obtain ⟨inner, henter, h⟩ := bind_eq_ok.1 h
    obtain ⟨s, hread, hcomplete⟩ := bind_eq_ok.1 h
    refine ⟨inner, members.nesting, absentMember, s, henter, rfl, hcomplete, ?_⟩
    intro inv hstart hfields
    exact inv_of_readMembers hfields members l.start s (Nat.le_refl _) hstart hread
  | arr items =>
    obtain ⟨inner, henter, h⟩ := bind_eq_ok.1 h
    obtain ⟨⟨s, rest⟩, hread, h⟩ := bind_eq_ok.1 h
    obtain ⟨b, hcomplete, h⟩ := bind_eq_ok.1 h
    obtain ⟨_, _, hreturn⟩ := bind_eq_ok.1 h
    cases hreturn
    refine ⟨inner, items.nesting, l.absentItem, s, henter, rfl, hcomplete, ?_⟩
    intro inv hstart hfields
    exact inv_of_readItems l.fields items l.start (s, rest) hfields (Nat.le_refl _) hstart hread
  | _ => cases h

/-- A record is shallow if the fields keep a bound on the draft that
bounds what is written for the completed value. -/
theorem shallow {l : Layout σ α} {toJson : α → Json} (inv : Nat → σ → Prop)
    (hstart : ∀ n, inv n l.start)
    (hfields : ∀ (ctx : Context) (n : Nat), ctx.ahead = true →
      ∀ f ∈ l.fields, f.Keeps ctx n (inv n))
    (hcomplete : ∀ (n : Nat) (absent : String → Fault) (s : σ) (a : α), inv n s →
      l.complete absent s = .ok a → (toJson a).nesting ≤ n + 1) :
    Shallow toJson l.decoder := by
  intro ctx o a hahead h
  obtain ⟨inner, n, absent, s, henter, hnesting, hdone, hinv⟩ := exists_of_decoder h
  rw [Context.enter_ahead hahead] at henter
  cases henter
  rw [hnesting]
  exact hcomplete n absent s a (hinv (inv n) (hstart n) (hfields ctx n hahead)) hdone

/-- A record with one place that can hold containers. -/
theorem shallow_of_place {l : Layout σ α} {toJson : α → Json} (piece : β → Json)
    (place : σ → Option β) (hstart : place l.start = none)
    (hfields : ∀ (ctx : Context) (n : Nat), ctx.ahead = true →
      ∀ f ∈ l.fields, f.Keeps ctx n fun s => Fits piece n (place s))
    (hcomplete : ∀ (absent : String → Fault) (s : σ) (a : α), l.complete absent s = .ok a →
      ∃ b, place s = some b ∧ (toJson a).nesting = (piece b).nesting + 1) :
    Shallow toJson l.decoder := by
  refine shallow (fun n s => Fits piece n (place s)) (fun n => ?_) hfields ?_
  · show Fits piece n (place l.start)
    rw [hstart]
    exact fits_none piece n
  · intro n absent s a hs h
    obtain ⟨b, hb, hnesting⟩ := hcomplete absent s a h
    rw [hb, fits_some] at hs
    omega

end Layout

/-! ## Readers that decide about room -/

/-- Inside a container there is less room. -/
theorem Context.room_of_enter {ctx inner : Context} (hahead : ctx.ahead = false)
    (h : ctx.enter = .ok inner) : inner.ahead = false ∧ ctx.room = inner.room + 1 := by
  cases hroom : ctx.room with
  | zero => simp [enter, hahead, hroom] at h
  | succ room =>
    simp only [enter, hahead, hroom] at h
    cases h
    exact ⟨rfl, rfl⟩

theorem lift_eq_ok {result : Except Cut α} {a : α} : lift result = .ok a ↔ result = .ok a := by
  cases result with
  | ok b =>
    show (.ok b : Except Fault α) = .ok a ↔ _
    simp
  | error cut =>
    show (.error (.cut cut) : Except Fault α) = .ok a ↔ _
    simp

theorem nesting_le_of_mem_entries {toJson : α → Json} {d : Decoder α} {ctx : Context}
    (hd : ∀ (o : Outline) (a : α), d ctx o = .ok a → (toJson a).nesting ≤ ctx.room) :
    ∀ (members : Members) (es : List (String × α)), members.entries d ctx = .ok es →
      ∀ e ∈ es, (toJson e.2).nesting ≤ ctx.room
  | .close, _, h => by
    cases h
    simp
  | .member (some key) value rest, _, h => by
    obtain ⟨a, ha, h⟩ := bind_eq_ok.1 h
    obtain ⟨es, hes, h⟩ := bind_eq_ok.1 h
    cases h
    have hrest := nesting_le_of_mem_entries hd rest es hes
    simpa using ⟨hd value a ha, fun key b => hrest (key, b)⟩

/-- The values of a map have less room than the map. -/
theorem nesting_lt_of_entries {toJson : α → Json} {d : Decoder α}
    (hd : ∀ (ctx : Context) (o : Outline) (a : α), ctx.ahead = false → d ctx o = .ok a →
      (toJson a).nesting ≤ ctx.room)
    {ctx : Context} (hahead : ctx.ahead = false) {o : Outline} {es : List (String × α)}
    (h : entries d ctx o = .ok es) : ∀ e ∈ es, (toJson e.2).nesting < ctx.room := by
  cases o with
  | obj members =>
    obtain ⟨inner, henter, h⟩ := bind_eq_ok.1 h
    obtain ⟨hinner, hroom⟩ := Context.room_of_enter hahead henter
    intro e he
    have hle := nesting_le_of_mem_entries (fun o a => hd inner o a hinner) members es h e he
    rw [hroom]
    exact Nat.lt_succ_of_le hle
  | _ => cases h

namespace Tagged

theorem exists_mem_of_ofTag {records : Tagged α} {o : Outline} {d : Decoder α}
    (h : records.ofTag o = .ok d) : ∃ kind, (kind, d) ∈ records := by
  unfold ofTag at h
  split at h
  · split at h
    · next hfind =>
      cases h
      exact ⟨_, List.mem_of_find?_eq_some hfind⟩
    · cases h
  · cases h

/-- What was read ahead fits the room, and the record is one of those
that a tag can name. -/
theorem spec_of_readMembers {records : Tagged α} {tag : String} {room : Nat} :
    ∀ (members : Members) (record : Option (Decoder α)) (result : Option (Decoder α) × Members),
    (∀ d ∈ record, ∃ kind, (kind, d) ∈ records) →
    readMembers records tag room record members = .ok result →
    (∀ d ∈ result.1, ∃ kind, (kind, d) ∈ records) ∧ result.2.nesting ≤ room
  | .close, _, _, hrecord, h => by
    cases h
    exact ⟨hrecord, Nat.zero_le _⟩
  | .member (some name) value rest, record, result, hrecord, h => by
    rw [readMembers] at h
    split at h
    · split at h
      · cases h
      · obtain ⟨d, hd, h⟩ := bind_eq_ok.1 h
        refine spec_of_readMembers rest (some d) result ?_ h
        intro d' hd'
        cases hd'
        exact exists_mem_of_ofTag hd
    · obtain ⟨_, hsettle, h⟩ := bind_eq_ok.1 h
      obtain ⟨⟨record', others⟩, hread, h⟩ := bind_eq_ok.1 h
      cases h
      obtain ⟨hrecord', hothers⟩ := spec_of_readMembers rest record _ hrecord hread
      have hvalue := nesting_le_of_settle value room (lift_eq_ok.1 hsettle)
      exact ⟨hrecord', Nat.max_le.2 ⟨hvalue, hothers⟩⟩

/-- What a tagged record that was read comes from: one of the records,
read from something that fits the room. -/
theorem exists_of_decoder {records : Tagged α} {name tag : String} {ctx : Context} {o : Outline}
    {a : α} (hahead : ctx.ahead = false) (h : decoder records name tag ctx o = .ok a) :
    ∃ (kind : String) (d : Decoder α) (inner : Context) (part : Outline),
      (kind, d) ∈ records ∧ inner.ahead = true ∧ d inner part = .ok a ∧
      part.nesting ≤ ctx.room := by
  cases o with
  | obj members =>
    obtain ⟨inner, henter, h⟩ := bind_eq_ok.1 h
    obtain ⟨⟨record, others⟩, hread, h⟩ := bind_eq_ok.1 h
    obtain ⟨d, hrequired, h⟩ := bind_eq_ok.1 h
    obtain ⟨hrecord, hothers⟩ := spec_of_readMembers members none _ (by simp) hread
    obtain ⟨-, hroom⟩ := Context.room_of_enter hahead henter
    cases record with
    | none => cases hrequired
    | some d' =>
      cases hrequired
      obtain ⟨kind, hmem⟩ := hrecord d rfl
      refine ⟨kind, d, inner.readAhead, .obj others, hmem, rfl, h, ?_⟩
      rw [hroom]
      exact Nat.succ_le_succ hothers
  | arr items =>
    obtain ⟨inner, henter, h⟩ := bind_eq_ok.1 h
    obtain ⟨-, hroom⟩ := Context.room_of_enter hahead henter
    cases items with
    | close => cases h
    | stop _ _ => cases h
    | item value rest =>
      obtain ⟨d, hd, h⟩ := bind_eq_ok.1 h
      obtain ⟨_, hsettle, h⟩ := bind_eq_ok.1 h
      obtain ⟨kind, hmem⟩ := exists_mem_of_ofTag hd
      have hrest := items_nesting_le_of_settle rest inner.room (lift_eq_ok.1 hsettle)
      refine ⟨kind, d, inner.readAhead, .arr rest, hmem, rfl, h, ?_⟩
      rw [hroom]
      exact Nat.succ_le_succ hrest
  | _ => cases h

end Tagged

end OverrideCheck.Json
