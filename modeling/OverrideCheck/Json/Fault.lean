import OverrideCheck.Json.Outline
import OverrideCheck.Text.Quoted

/-!
# `OverrideCheck.Json.Fault`: why a text is not what its reader wants

A text fails its reader in one of two ways. It is no JSON (`Cut`), or
it is JSON of another shape than the reader wants (`Mismatch`). Only
the second kind has a message of its own.
-/

set_option autoImplicit false

namespace OverrideCheck.Json

/-- What a reader finds at a place. -/
inductive Found where
  | null
  | boolean (b : Bool)
  | number (n : Number)
  | string (s : String)
  | sequence
  | map
  /-- The name of a choice without the value that belongs to it. -/
  | unitVariant
  deriving DecidableEq, Repr, Inhabited

/-- What a reader wants at a place. -/
inductive Wanted where
  | string
  | path
  | boolean
  | sequence
  | map
  /-- The fields of the named record. -/
  | record (name : String)
  /-- A record of the named choice with its tag among the fields. -/
  | tagged (name : String)
  /-- The name of a choice. -/
  | variantName
  /-- A choice: its name alone, or an object with the name for its only
  key. -/
  | choice
  /-- Nothing beside the name of a choice. -/
  | unit
  /-- A value beside the name of a choice. -/
  | payload
  deriving DecidableEq, Repr, Inhabited

/-- JSON of another shape than the reader wants. -/
inductive Mismatch where
  | wrongType (found : Found) (wanted : Wanted)
  /-- A choice that is an object has one member. -/
  | notSingleKey
  /-- A record given by an array lacks the field of this index. -/
  | tooShort (index : Nat) (record : String) (fields : Nat)
  /-- A record given by an array of this length has fewer fields. -/
  | tooLong (length fields : Nat)
  | unknownVariant (name : String) (known : List String)
  | missingField (name : String)
  | duplicateField (name : String)
  /-- A string that is no word for a truth value. -/
  | notBoolean (word : String)
  /-- Neither a truth value nor a word for one. -/
  | neitherBooleanNorString
  deriving DecidableEq, Repr, Inhabited

/-- Why a text is not what its reader wants. -/
inductive Fault where
  | cut (c : Cut)
  | mismatch (m : Mismatch)
  deriving DecidableEq, Repr, Inhabited

/-- A name between backticks. -/
def ticked (name : String) : String := "`" ++ name ++ "`"

/-- The words for what was found. -/
def Found.message : Found → String
  | null => "null"
  | boolean b => "boolean " ++ ticked (if b then "true" else "false")
  | number (.integer n) => "integer " ++ ticked (Number.render (.integer n))
  | number x => "floating point " ++ ticked x.render
  | string s => "string " ++ Text.quote s
  | sequence => "sequence"
  | map => "map"
  | unitVariant => "unit variant"

/-- The words for what is wanted. -/
def Wanted.message : Wanted → String
  | string => "a string"
  | path => "path string"
  | boolean => "a boolean"
  | sequence => "a sequence"
  | map => "a map"
  | record name => "struct " ++ name
  | tagged name => "internally tagged enum " ++ name
  | variantName => "variant identifier"
  | choice => "string or map"
  | unit => "unit"
  | payload => "newtype variant"

/-- A number of elements. -/
def elements (n : Nat) : String :=
  if n = 1 then "1 element" else toString n ++ " elements"

/-- The names that could have stood in a place. -/
def oneOf : List String → String
  | [] => "there are no variants"
  | [a] => "expected " ++ ticked a
  | [a, b] => "expected " ++ ticked a ++ " or " ++ ticked b
  | names => "expected one of " ++ ", ".intercalate (names.map ticked)

/-- The text of a mismatch. -/
def Mismatch.message : Mismatch → String
  | wrongType found wanted => "invalid type: " ++ found.message ++ ", expected " ++ wanted.message
  | notSingleKey => "invalid value: map, expected map with a single key"
  | tooShort index record fields =>
    "invalid length " ++ toString index ++ ", expected struct " ++ record ++ " with "
      ++ elements fields
  | tooLong length fields =>
    "invalid length " ++ toString length ++ ", expected " ++ elements fields ++ " in sequence"
  | unknownVariant name known => "unknown variant " ++ ticked name ++ ", " ++ oneOf known
  | missingField name => "missing field " ++ ticked name
  | duplicateField name => "duplicate field " ++ ticked name
  | notBoolean word =>
    "invalid boolean value: '" ++ word ++ "'. Expected true, false, 'true', or 'false'"
  | neitherBooleanNorString => "data did not match any variant of untagged enum BoolOrString"

/-- What stands at a place. A string without text and a number out of
range are no values. -/
def Outline.found : Outline → Except Cut Found
  | .null => .ok .null
  | .bool b => .ok (.boolean b)
  | .num n => (n.read?.map Found.number).elim (.error .malformed) .ok
  | .str none => .error .malformed
  | .str (some s) => .ok (.string s)
  | .arr _ => .ok .sequence
  | .obj _ => .ok .map
  | .broken b => .error b.read

/-- The fault of a reader that wants something else than what stands
at a place. -/
def Outline.refuse (o : Outline) (wanted : Wanted) : Fault :=
  match o.found with
  | .ok found => .mismatch (.wrongType found wanted)
  | .error c => .cut c

end OverrideCheck.Json
