import OverrideCheck.Json.Decoder

/-!
# `OverrideCheck.Json.Choice`: values that are one of several variants

A choice is written as an object whose only key names the variant and
whose value is what the variant holds. The name alone, as a string, is
enough for a variant that holds nothing.

A choice that is read as it comes is looked at no further than needed
to see that it is one: anything but a string or an object with one
member is malformed. In a part that was read ahead the same things are
mismatches.
-/

set_option autoImplicit false

namespace OverrideCheck.Json

/-- A variant of a choice: its name, and how what it holds is read. A
variant that is given by its name alone holds nothing. -/
structure Variant (α : Type) where
  name : String
  read : Context → Option Outline → Except Fault α

/-- A variant that holds nothing. In a part that was read ahead, an
empty object counts as nothing. -/
def Variant.unit {α : Type} (name : String) (a : α) : Variant α where
  name := name
  read ctx payload :=
    match payload with
    | none => .ok a
    | some .null => .ok a
    | some (.obj .close) =>
      if ctx.ahead then .ok a else .error ((Outline.obj .close).refuse .unit)
    | some o => .error (o.refuse .unit)

/-- A variant that holds a value. -/
def Variant.value {α β : Type} (name : String) (d : Decoder β) (make : β → α) : Variant α where
  name := name
  read ctx payload :=
    match payload with
    | none => .error (.mismatch (.wrongType .unitVariant .payload))
    | some o => (d ctx o).map make

/-- The variant of a name. -/
def pick {α : Type} (variants : List (Variant α)) (name : String) : Except Fault (Variant α) :=
  match variants.find? (·.name = name) with
  | some v => .ok v
  | none => .error (.mismatch (.unknownVariant name (variants.map (·.name))))

/-- Behind the member of a choice nothing may follow. -/
def Members.finish : Members → Except Fault Unit
  | .close => .ok ()
  | .stop false b => .error (.cut b.read)
  | _ => .error (.cut .malformed)

/-- One of several variants, read as it comes. -/
def chooseMember {α : Type} (variants : List (Variant α)) (ctx : Context) :
    Members → Except Fault α
  | .close => .error (.cut .malformed)
  | .stop _ b => .error (.cut b.read)
  | .member none _ _ => .error (.cut .malformed)
  | .member (some name) value rest => do
    let variant ← pick variants name
    let a ← variant.read ctx (some value)
    rest.finish
    return a

/-- One of several variants in a part that was read ahead. -/
def chooseAhead {α : Type} (variants : List (Variant α)) (ctx : Context) :
    Members → Except Fault α
  | .member (some name) value .close => do
    let variant ← pick variants name
    variant.read ctx (some value)
  | _ => .error (.mismatch .notSingleKey)

/-- One of several variants. -/
def choice {α : Type} (variants : List (Variant α)) : Decoder α
  | ctx, .str (some name) => do
    let variant ← pick variants name
    variant.read ctx none
  | ctx, .obj members => do
    let inner ← ctx.enter
    if ctx.ahead then chooseAhead variants inner members
    else chooseMember variants inner members
  | _, .str none => .error (.cut .malformed)
  | _, .broken b => .error (.cut b.glance)
  | ctx, o => .error (if ctx.ahead then o.refuse .choice else .cut .malformed)

end OverrideCheck.Json
