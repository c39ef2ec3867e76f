import OverrideCheck.Json.Choice

/-!
# `OverrideCheck.Json.Record`: values with named fields

A record is written as an object with a member for each field, in any
order, or as an array with the fields in their declared order. Members
that name no field are passed over. While a record is read, a draft
holds what has been found; at the end the draft is completed or the
first field that is missing and has no default is reported.

A tagged record is one of several records. Which one it is says a
member of its own, the tag, that may stand anywhere among the others.
So the other members are read ahead, and only then read for what they
have to be.
-/

set_option autoImplicit false

namespace OverrideCheck.Json

/-- A field of a record whose draft is of type `σ`. -/
structure Field (σ : Type) where
  name : String
  /-- Whether the draft has the field. -/
  isSet : σ → Bool
  /-- Read the field into the draft. -/
  read : Context → Outline → σ → Except Fault σ

/-- A field by the place that its value takes in the draft. -/
def Field.of {σ β : Type} (name : String) (d : Decoder β) (get : σ → Option β)
    (set : σ → β → σ) : Field σ where
  name := name
  isSet s := (get s).isSome
  read ctx o s := do return set s (← d ctx o)

/-- The layout of a record: its fields in their declared order, the
draft that nothing has been read into, and how a draft is completed.
Completion gets the fault for a missing field. -/
structure Layout (σ α : Type) where
  name : String
  fields : List (Field σ)
  start : σ
  complete : (String → Fault) → σ → Except Fault α

/-- A field without a default. -/
def required {β : Type} (absent : String → Fault) (name : String) : Option β → Except Fault β
  | some b => .ok b
  | none => .error (absent name)

/-- The number of elements in the rest of an array. -/
def Items.length : Items → Nat
  | .item _ rest => rest.length + 1
  | _ => 0

namespace Layout

variable {σ α : Type}

/-- The field of a name. -/
def field? (l : Layout σ α) (name : String) : Option (Field σ) :=
  l.fields.find? (·.name = name)

/-- Read the rest of an object into a draft. -/
def readMembers (l : Layout σ α) (ctx : Context) : Members → σ → Except Fault σ
  | .close, draft => .ok draft
  | .stop _ b, _ => .error (.cut b.read)
  | .member none _ _, _ => .error (.cut .malformed)
  | .member (some name) value rest, draft =>
    match l.field? name with
    | none => do
      lift value.skip
      l.readMembers ctx rest draft
    | some f =>
      if f.isSet draft then .error (.mismatch (.duplicateField name))
      else do
        let draft ← f.read ctx value draft
        l.readMembers ctx rest draft

/-- Read the rest of an array into a draft, a field an element. Fields
that are not there keep what the draft has. -/
def readItems (ctx : Context) : List (Field σ) → Items → σ → Except Fault (σ × Items)
  | _ :: _, .close, draft => .ok (draft, .close)
  | _ :: _, .stop _ c, _ => .error (.cut c)
  | f :: fields, .item value rest, draft => do
    let draft ← f.read ctx value draft
    readItems ctx fields rest draft
  | [], rest, draft => .ok (draft, rest)

/-- No element may follow those of the fields. -/
def finishItems (l : Layout σ α) (ctx : Context) : Items → Except Fault Unit
  | .close => .ok ()
  | rest =>
    if ctx.ahead then
      .error (.mismatch (.tooLong (l.fields.length + rest.length) l.fields.length))
    else .error (.cut (match rest with
      | .stop false c => c
      | _ => .malformed))

/-- The fault for a field that an object lacks. -/
def absentMember (name : String) : Fault := .mismatch (.missingField name)

/-- The fault for a field that an array lacks. -/
def absentItem (l : Layout σ α) (name : String) : Fault :=
  .mismatch (.tooShort (l.fields.findIdx (·.name = name)) l.name l.fields.length)

/-- A record. -/
def decoder (l : Layout σ α) : Decoder α
  | ctx, .obj members => do
    let draft ← l.readMembers (← ctx.enter) members l.start
    l.complete absentMember draft
  | ctx, .arr items => do
    let (draft, rest) ← readItems (← ctx.enter) l.fields items l.start
    let a ← l.complete l.absentItem draft
    l.finishItems ctx rest
    return a
  | _, o => .error (o.refuse (.record l.name))

end Layout

/-! ## Tagged records -/

/-- The records that a tag tells apart, by the names that the tag
takes. -/
abbrev Tagged (α : Type) := List (String × Decoder α)

namespace Tagged

variable {α : Type}

/-- The record that a tag names. -/
def ofTag (records : Tagged α) : Outline → Except Fault (Decoder α)
  | .str (some name) =>
    match records.find? (·.1 = name) with
    | some (_, d) => .ok d
    | none => .error (.mismatch (.unknownVariant name (records.map (·.1))))
  | o => .error (o.refuse .variantName)

/-- Read the rest of an object ahead: the record that its tag names,
unless an earlier member did, and its other members. -/
def readMembers (records : Tagged α) (tag : String) (room : Nat) :
    Option (Decoder α) → Members → Except Fault (Option (Decoder α) × Members)
  | record, .close => .ok (record, .close)
  | _, .stop _ b => .error (.cut b.read)
  | _, .member none _ _ => .error (.cut .malformed)
  | record, .member (some name) value rest =>
    if name = tag then
      if record.isSome then .error (.mismatch (.duplicateField tag))
      else do
        let d ← records.ofTag value
        readMembers records tag room (some d) rest
    else do
      lift (value.settle room)
      let (record, others) ← readMembers records tag room record rest
      return (record, .member (some name) value others)

/-- One of several records. In an array the tag comes first. -/
def decoder (records : Tagged α) (name tag : String) : Decoder α
  | ctx, .obj members => do
    let inner ← ctx.enter
    let (record, others) ← readMembers records tag inner.room none members
    let d ← required (fun tag => .mismatch (.missingField tag)) tag record
    d inner.readAhead (.obj others)
  | ctx, .arr items => do
    let inner ← ctx.enter
    match items with
    | .close => .error (.mismatch (.missingField tag))
    | .stop _ c => .error (.cut c)
    | .item value rest =>
      let d ← records.ofTag value
      lift (rest.settle inner.room)
      d inner.readAhead (.arr rest)
  | _, o => .error (o.refuse (.tagged name))

end Tagged

end OverrideCheck.Json
