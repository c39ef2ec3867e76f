import Mathlib.Data.List.Forall2
import OverrideCheck.Proofs.Json.FieldOrder

/-!
# `OverrideCheck.Proofs.Json.Change`: what may be rearranged in a text

A record may have its members in any order and others among them. This
module says what that means for a text whose records have further
records inside. A `Change` relates what stands at a place to what may
stand there instead. There is one for each way to read: a record may
have its members rearranged (`Rearranged`), and what is in its members
may change in turn; in a list every element may change, and so on.

Most of a text is read ahead before it is known what it has to be, and
what is read ahead is judged as a whole. So where a member is added, its
value has to be readable in the room that is left (`ReadableWithin`).
Then what could be read ahead still can.
-/

set_option autoImplicit false

namespace OverrideCheck.Json

/-! ## Values that can be read -/

mutual

/-- The value is JSON that can be read: its strings have texts and its
numbers are in range. -/
def Outline.Valid : Outline → Prop
  | .broken _ => False
  | .num n => n.read?.isSome = true
  | .str text => text.isSome = true
  | .arr items => items.Valid
  | .obj members => members.Valid
  | _ => True

/-- The elements can be read. -/
def Items.Valid : Items → Prop
  | .close => True
  | .stop _ _ => False
  | .item value rest => value.Valid ∧ rest.Valid

/-- The members can be read, and their names are texts. -/
def Members.Valid : Members → Prop
  | .close => True
  | .stop _ _ => False
  | .member key value rest => key.isSome = true ∧ value.Valid ∧ rest.Valid

end

/-- The value can be read where so many containers can be opened around
each other. -/
def ReadableWithin (room : Nat) (o : Outline) : Prop := o.Valid ∧ o.nesting ≤ room

mutual

theorem settle_of_valid : ∀ (o : Outline) (room : Nat), o.Valid → o.nesting ≤ room →
    o.settle room = .ok ()
  | .null, _, _, _ | .bool _, _, _, _ | .str (some _), _, _, _ => rfl
  | .num _, _, h, _ => if_pos h
  | .arr items, room + 1, h, hle => items_settle_of_valid items room h (Nat.le_of_succ_le_succ hle)
  | .obj members, room + 1, h, hle =>
    members_settle_of_valid members room h (Nat.le_of_succ_le_succ hle)

theorem items_settle_of_valid : ∀ (items : Items) (room : Nat), items.Valid →
    items.nesting ≤ room → items.settle room = .ok ()
  | .close, _, _, _ => rfl
  | .item value rest, room, h, hle => by
    obtain ⟨hvalue, hrest⟩ := Nat.max_le.1 hle
    rw [Items.settle, settle_of_valid value room h.1 hvalue]
    exact items_settle_of_valid rest room h.2 hrest

theorem members_settle_of_valid : ∀ (members : Members) (room : Nat), members.Valid →
    members.nesting ≤ room → members.settle room = .ok ()
  | .close, _, _, _ => rfl
  | .member (some _) value rest, room, h, hle => by
    obtain ⟨hvalue, hrest⟩ := Nat.max_le.1 hle
    rw [Members.settle, settle_of_valid value room h.2.1 hvalue]
    exact members_settle_of_valid rest room h.2.2 hrest

end

mutual

theorem skip_of_valid : ∀ o : Outline, o.Valid → o.skip = .ok ()
  | .null, _ | .bool _, _ | .num _, _ | .str _, _ => rfl
  | .arr items, h => items_skip_of_valid items h
  | .obj members, h => members_skip_of_valid members h

theorem items_skip_of_valid : ∀ items : Items, items.Valid → items.skip = .ok ()
  | .close, _ => rfl
  | .item value rest, h => by
    rw [Items.skip, skip_of_valid value h.1]
    exact items_skip_of_valid rest h.2

theorem members_skip_of_valid : ∀ members : Members, members.Valid → members.skip = .ok ()
  | .close, _ => rfl
  | .member _ value rest, h => by
    rw [Members.skip, skip_of_valid value h.2.1]
    exact members_skip_of_valid rest h.2.2

end

theorem ReadableWithin.settle {room : Nat} {o : Outline} (h : ReadableWithin room o) :
    o.settle room = .ok () :=
  settle_of_valid o room h.1 h.2

theorem ReadableWithin.skip {room : Nat} {o : Outline} (h : ReadableWithin room o) :
    o.skip = .ok () :=
  skip_of_valid o h.1

/-! ## Changes -/

/-- What a value may be replaced by, where so many containers can be
opened around each other. -/
abbrev Change := Nat → Outline → Outline → Prop

/-- Nothing else may stand there. -/
def Change.same : Change := fun _ o o' => o' = o

/-- The elements of an array change one by one. -/
inductive ItemsChange (change : Outline → Outline → Prop) : Items → Items → Prop where
  | close : ItemsChange change .close .close
  | item {value value' : Outline} {rest rest' : Items} (h : change value value')
      (hrest : ItemsChange change rest rest') :
      ItemsChange change (.item value rest) (.item value' rest')

/-- The elements of an array change, each like the field that it
stands for. -/
inductive PositionalChange (room : Nat) : List (String × Change) → Items → Items → Prop where
  | close (fields : List (String × Change)) : PositionalChange room fields .close .close
  | item {name : String} {change : Change} {fields : List (String × Change)}
      {value value' : Outline} {rest rest' : Items} (h : change room value value')
      (hrest : PositionalChange room fields rest rest') :
      PositionalChange room ((name, change) :: fields) (.item value rest) (.item value' rest')

/-- A member changes in its value if its name is that of a field. -/
def MemberChange (fields : List (String × Change)) (room : Nat) (m m' : String × Outline) : Prop :=
  m' = m ∨ m'.1 = m.1 ∧ ∃ change, (m.1, change) ∈ fields ∧ change room m.2 m'.2

/-- The members of a record in another order, changed one by one, and
others among them that have no field's name. -/
def Rearranged (fields : List (String × Change)) (added : Outline → Prop) (room : Nat)
    (ms ms' : List (String × Outline)) : Prop :=
  ∃ changed others, List.Forall₂ (MemberChange fields room) ms changed
    ∧ ms'.Perm (changed ++ others)
    ∧ ∀ m ∈ others, m.1 ∉ fields.map (·.1) ∧ added m.2

namespace Change

/-- The elements of a list. -/
inductive each (change : Change) : Change where
  | same {room : Nat} {o : Outline} : each change room o o
  | array {room : Nat} {items items' : Items} (h : ItemsChange (change room) items items') :
      each change (room + 1) (.arr items) (.arr items')

/-- The values of a map. Their order stays. -/
inductive values (change : Change) : Change where
  | same {room : Nat} {o : Outline} : values change room o o
  | object {room : Nat} {ms ms' : List (String × Outline)}
      (h : List.Forall₂ (fun m m' => m'.1 = m.1 ∧ change room m.2 m'.2) ms ms') :
      values change (room + 1) (.obj (.ofList ms)) (.obj (.ofList ms'))

/-- What the variants of a choice hold. -/
inductive payload (variants : List (String × Change)) : Change where
  | same {room : Nat} {o : Outline} : payload variants room o o
  | object {room : Nat} {name : String} {change : Change} {value value' : Outline}
      (hvariant : (name, change) ∈ variants) (h : change room value value') :
      payload variants (room + 1) (.obj (.ofList [(name, value)])) (.obj (.ofList [(name, value')]))

/-- A record, as an object or as an array. -/
inductive record (fields : List (String × Change)) (added : Nat → Outline → Prop) : Change where
  | same {room : Nat} {o : Outline} : record fields added room o o
  | object {room : Nat} {ms ms' : List (String × Outline)}
      (h : Rearranged fields (added room) room ms ms') :
      record fields added (room + 1) (.obj (.ofList ms)) (.obj (.ofList ms'))
  | array {room : Nat} {items items' : Items} (h : PositionalChange room fields items items') :
      record fields added (room + 1) (.arr items) (.arr items')

/-- One of several records that a tag tells apart. The tag is a member
like the others. -/
inductive tagged (tag : String) (records : List (String × List (String × Change)))
    (added : Nat → Outline → Prop) : Change where
  | same {room : Nat} {o : Outline} : tagged tag records added room o o
  | object {room : Nat} {kind : String} {fields : List (String × Change)}
      {ms ms' : List (String × Outline)} (hrecord : (kind, fields) ∈ records)
      (htag : (tag, .str (some kind)) ∈ ms)
      (h : Rearranged ((tag, .same) :: fields) (added room) room ms ms') :
      tagged tag records added (room + 1) (.obj (.ofList ms)) (.obj (.ofList ms'))
  | array {room : Nat} {kind : String} {fields : List (String × Change)} {items items' : Items}
      (hrecord : (kind, fields) ∈ records) (h : PositionalChange room fields items items') :
      tagged tag records added (room + 1) (.arr (.item (.str (some kind)) items))
        (.arr (.item (.str (some kind)) items'))

end Change

/-! ## Members one by one -/

/-- A check that has to succeed before the rest. -/
theorem check_bind_eq_ok {ε α : Type} {x : Except ε Unit} {f : Unit → Except ε α} {a : α} :
    x >>= f = .ok a ↔ x = .ok () ∧ f () = .ok a := by
  rw [bind_eq_ok]
  constructor
  · rintro ⟨_, hx, hf⟩
    exact ⟨hx, hf⟩
  · rintro ⟨hx, hf⟩
    exact ⟨(), hx, hf⟩

theorem ItemsChange.settle {change : Change} {room : Nat}
    (h : ∀ {o o'}, change room o o' → o.settle room = .ok () → o'.settle room = .ok ())
    {items items' : Items} (hchange : ItemsChange (change room) items items') :
    items.settle room = .ok () → items'.settle room = .ok () := by
  induction hchange with
  | close => exact id
  | item hvalue _ ih =>
    intro hsettle
    obtain ⟨hfirst, hrest⟩ := check_bind_eq_ok.1 hsettle
    exact check_bind_eq_ok.2 ⟨h hvalue hfirst, ih hrest⟩

section Settle

variable {room : Nat} {fields : List (String × Change)}
  (hfields : ∀ entry ∈ fields, ∀ {o o'}, entry.2 room o o' → o.settle room = .ok () →
    o'.settle room = .ok ())

include hfields

theorem settle_changed {ms ms' : List (String × Outline)}
    (h : List.Forall₂ (MemberChange fields room) ms ms')
    (hsettle : ∀ m ∈ ms, m.2.settle room = .ok ()) : ∀ m ∈ ms', m.2.settle room = .ok () := by
  induction h with
  | nil => simp
  | cons hm _ ih =>
    rw [List.forall_mem_cons] at hsettle ⊢
    refine ⟨?_, ih hsettle.2⟩
    obtain rfl | ⟨-, change, hchange, hvalue⟩ := hm
    · exact hsettle.1
    · exact hfields _ hchange hvalue hsettle.1

theorem Rearranged.settle {ms ms' : List (String × Outline)}
    (h : Rearranged fields (ReadableWithin room) room ms ms')
    (hsettle : ∀ m ∈ ms, m.2.settle room = .ok ()) : ∀ m ∈ ms', m.2.settle room = .ok () := by
  obtain ⟨changed, others, hchanged, hperm, hothers⟩ := h
  intro m hm
  obtain hm | hm := List.mem_append.1 (hperm.subset hm)
  · exact settle_changed hfields hchanged hsettle m hm
  · exact (hothers m hm).2.settle

theorem PositionalChange.settle {items items' : Items}
    (h : PositionalChange room fields items items') (hsettle : items.settle room = .ok ()) :
    items'.settle room = .ok () := by
  induction h with
  | close => exact hsettle
  | item hvalue _ ih =>
    obtain ⟨hfirst, hrest⟩ := check_bind_eq_ok.1 hsettle
    rw [List.forall_mem_cons] at hfields
    exact check_bind_eq_ok.2 ⟨hfields.1 hvalue hfirst, ih hfields.2 hrest⟩

end Settle

/-! ## The tag among the members -/

section Tag

variable {tag : String} {room : Nat} {fields : List (String × Change)}
  {ms ms' : List (String × Outline)}

end Tag

end OverrideCheck.Json
