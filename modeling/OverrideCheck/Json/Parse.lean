import OverrideCheck.Json.Decoder
import OverrideCheck.Json.Value

/-!
# `OverrideCheck.Json.Parse`: texts as JSON values

Any text without faults is a value. An object has a name once: a name
that is repeated keeps its first place and takes its last value.
-/

set_option autoImplicit false

namespace OverrideCheck.Json

/-- Put a member behind others, or in the place of the one that has its
name. -/
def putMember (name : String) (value : Json) : List (String × Json) → List (String × Json)
  | [] => [(name, value)]
  | (key, old) :: rest =>
    if key = name then (key, value) :: rest else (key, old) :: putMember name value rest

mutual

/-- The value of an outline without breaks. -/
def Outline.toJson? : Outline → Option Json
  | .null => some .null
  | .bool b => some (.bool b)
  | .num n => some (.num n)
  | .str text => text.map .str
  | .arr items => items.toJson?.map .arr
  | .obj members => (members.toJson? []).map .obj
  | .broken _ => none

/-- The elements of an array without breaks. -/
def Items.toJson? : Items → Option (List Json)
  | .close => some []
  | .stop _ _ => none
  | .item value rest => do return (← value.toJson?) :: (← rest.toJson?)

/-- The members of an object without breaks, behind others. -/
def Members.toJson? (before : List (String × Json)) : Members → Option (List (String × Json))
  | .close => some before
  | .member (some key) value rest => do
    let value ← value.toJson?
    rest.toJson? (putMember key value before)
  | _ => none

end

/-- The value of a text. -/
def parse? (text : String) : Option Json :=
  let doc := Document.ofText text
  if doc.clean then doc.root.toJson? else none

end OverrideCheck.Json
