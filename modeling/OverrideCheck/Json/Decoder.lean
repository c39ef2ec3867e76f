import OverrideCheck.Json.Fault

/-!
# `OverrideCheck.Json.Decoder`: reading values out of a text

A decoder walks along the outline of a text and makes a value of what
it finds, or stops at the first fault in the order of the text. This
module has the decoders of simple values, lists and maps, the two ways
of passing over a value, and the rule for whole texts.

Containers may be nested only so deep in what is read. What is merely
passed over may be nested without limit, and its strings and numbers
need not be ones that could be read.

Some parts of a text are read ahead before it is known what they have
to be. A part that was read ahead is known to be JSON without faults,
and for such parts a few rules differ. `Context` tells a decoder where
it is.
-/

set_option autoImplicit false

namespace OverrideCheck.Json

/-- The surroundings of a place in a text. -/
structure Context where
  /-- The place lies in a part of the text that was read ahead. -/
  ahead : Bool := false
  /-- How many containers can still be opened around each other. -/
  room : Nat
  deriving DecidableEq, Repr, Inhabited

/-- Nesting up to which a text is read. -/
def maxNesting : Nat := 127

/-- The surroundings of a whole text. -/
def Context.top : Context := { room := maxNesting }

/-- The surroundings inside a container. -/
def Context.enter (ctx : Context) : Except Fault Context :=
  if ctx.ahead then .ok ctx
  else match ctx.room with
    | 0 => .error (.cut .malformed)
    | room + 1 => .ok { ctx with room }

/-- The surroundings of the same place once it was read ahead. -/
def Context.readAhead (ctx : Context) : Context := { ctx with ahead := true }

/-- A reader of values of a type. -/
abbrev Decoder (α : Type) := Context → Outline → Except Fault α

/-! ## Passing over values -/

mutual

/-- Pass over a value that nobody wants. -/
def Outline.skip : Outline → Except Cut Unit
  | .broken b => .error b.skip
  | .arr items => items.skip
  | .obj members => members.skip
  | _ => .ok ()

/-- Pass over the rest of an array. -/
def Items.skip : Items → Except Cut Unit
  | .close => .ok ()
  | .stop _ c => .error c
  | .item value rest => do
    value.skip
    rest.skip

/-- Pass over the rest of an object. -/
def Members.skip : Members → Except Cut Unit
  | .close => .ok ()
  | .stop _ b => .error b.skip
  | .member _ value rest => do
    value.skip
    rest.skip

end

mutual

/-- Read a value ahead, with room for this many nested containers. Its
strings have texts and its numbers are in range. -/
def Outline.settle (room : Nat) : Outline → Except Cut Unit
  | .broken b => .error b.read
  | .num n => if n.read?.isSome then .ok () else .error .malformed
  | .str none => .error .malformed
  | .arr items =>
    match room with
    | 0 => .error .malformed
    | room + 1 => items.settle room
  | .obj members =>
    match room with
    | 0 => .error .malformed
    | room + 1 => members.settle room
  | _ => .ok ()

/-- Read the rest of an array ahead. -/
def Items.settle (room : Nat) : Items → Except Cut Unit
  | .close => .ok ()
  | .stop _ c => .error c
  | .item value rest => do
    value.settle room
    rest.settle room

/-- Read the rest of an object ahead. -/
def Members.settle (room : Nat) : Members → Except Cut Unit
  | .close => .ok ()
  | .stop _ b => .error b.read
  | .member none _ _ => .error .malformed
  | .member (some _) value rest => do
    value.settle room
    rest.settle room

end

/-- A fault of the text itself ends the reading. -/
def lift {α : Type} (result : Except Cut α) : Except Fault α := result.mapError .cut

/-! ## Simple values -/

/-- A text. -/
def textAs (wanted : Wanted) : Decoder String
  | _, .str (some s) => .ok s
  | _, o => .error (o.refuse wanted)

/-- A string. -/
def string : Decoder String := textAs .string

/-- A string that names a file. -/
def path : Decoder String := textAs .path

/-- A truth value. -/
def boolean : Decoder Bool
  | _, .bool b => .ok b
  | _, o => .error (o.refuse .boolean)

/-- Nothing for null, else a value. -/
def optional {α : Type} (d : Decoder α) : Decoder (Option α)
  | _, .null => .ok none
  | ctx, o => (d ctx o).map some

/-! ## Lists and maps -/

/-- The values of the rest of an array. -/
def Items.values {α : Type} (d : Decoder α) (ctx : Context) : Items → Except Fault (List α)
  | .close => .ok []
  | .stop _ c => .error (.cut c)
  | .item value rest => do
    let a ← d ctx value
    let as ← rest.values d ctx
    return a :: as

/-- A list of values. -/
def list {α : Type} (d : Decoder α) : Decoder (List α)
  | ctx, .arr items => do items.values d (← ctx.enter)
  | _, o => .error (o.refuse .sequence)

/-- The names and values of the rest of an object. -/
def Members.entries {α : Type} (d : Decoder α) (ctx : Context) :
    Members → Except Fault (List (String × α))
  | .close => .ok []
  | .stop _ b => .error (.cut b.read)
  | .member none _ _ => .error (.cut .malformed)
  | .member (some key) value rest => do
    let a ← d ctx value
    let as ← rest.entries d ctx
    return (key, a) :: as

/-- Values under names, in their order, a name as often as it stands
there. -/
def entries {α : Type} (d : Decoder α) : Decoder (List (String × α))
  | ctx, .obj members => do members.entries d (← ctx.enter)
  | _, o => .error (o.refuse .map)

/-! ## Whole texts -/

/-- Read a whole text. Only blanks may follow the value. -/
def Document.decode {α : Type} (doc : Document) (d : Decoder α) : Except Fault α := do
  let a ← d .top doc.root
  if doc.clean then return a else .error (.cut .malformed)

/-- Read a text. -/
def decode {α : Type} (d : Decoder α) (text : String) : Except Fault α :=
  (Document.ofText text).decode d

end OverrideCheck.Json
