import OverrideCheck.Json.Numeral

/-!
# `OverrideCheck.Json.Value`: JSON values and their texts

A value keeps the members of an object in their order, and a name as
often as it stands there. It is written in two forms: `compact`
without any blank, and `pretty` with one member or element a line,
indented by two spaces for each container around it. The two forms
differ in blanks only.

In a text between quotes only the quote, the backslash and the control
characters below the space are escaped.
-/

set_option autoImplicit false

namespace OverrideCheck

/-- A JSON value. -/
inductive Json where
  | null
  | bool (b : Bool)
  | num (n : Json.Numeral)
  | str (s : String)
  | arr (items : List Json)
  | obj (members : List (String × Json))
  deriving Repr, Inhabited

namespace Json

/-- A natural number. -/
def nat (n : Nat) : Json := num (.ofNat n)

/-- A text, or null. -/
def optStr : Option String → Json
  | none => null
  | some s => str s

/-- A list of texts. -/
def strs (texts : List String) : Json := arr (texts.map str)

/-- Look up the first member of a name in an object. -/
def member? (name : String) : Json → Option Json
  | obj members => (members.find? (·.1 = name)).map (·.2)
  | _ => none

/-- A character below the space as a hexadecimal escape. -/
def controlEscape (c : Char) : List Char :=
  let n := c.toNat
  ['\\', 'u', '0', '0', Nat.digitChar (n / 16), Nat.digitChar (n % 16)]

/-- One character of a text between quotes. -/
def escapeChar (c : Char) : List Char :=
  if c = '"' then ['\\', '"']
  else if c = '\\' then ['\\', '\\']
  else if c = '\x08' then ['\\', 'b']
  else if c = '\x0c' then ['\\', 'f']
  else if c = '\n' then ['\\', 'n']
  else if c = '\r' then ['\\', 'r']
  else if c = '\t' then ['\\', 't']
  else if c.toNat < 0x20 then controlEscape c
  else [c]

/-- A text between quotes, before what follows it. -/
def stringOnto (s : String) (rest : List Char) : List Char :=
  '"' :: s.toList.flatMap escapeChar ++ '"' :: rest

mutual

/-- A value without blanks, before what follows it. -/
def compactOnto : Json → List Char → List Char
  | null, rest => 'n' :: 'u' :: 'l' :: 'l' :: rest
  | bool true, rest => 't' :: 'r' :: 'u' :: 'e' :: rest
  | bool false, rest => 'f' :: 'a' :: 'l' :: 's' :: 'e' :: rest
  | num n, rest => n.chars ++ rest
  | str s, rest => stringOnto s rest
  | arr [], rest => '[' :: ']' :: rest
  | arr (item :: items), rest => '[' :: compactOnto item (compactItems items rest)
  | obj [], rest => '{' :: '}' :: rest
  | obj ((key, value) :: members), rest =>
    '{' :: stringOnto key (':' :: compactOnto value (compactMembers members rest))

/-- What follows the first element of an array. -/
def compactItems : List Json → List Char → List Char
  | [], rest => ']' :: rest
  | item :: items, rest => ',' :: compactOnto item (compactItems items rest)

/-- What follows the first member of an object. -/
def compactMembers : List (String × Json) → List Char → List Char
  | [], rest => '}' :: rest
  | (key, value) :: members, rest =>
    ',' :: stringOnto key (':' :: compactOnto value (compactMembers members rest))

end

/-- A value in one line without blanks. -/
def compact (j : Json) : String := String.ofList (j.compactOnto [])

/-- A new line, indented for this many containers. -/
def newLine (depth : Nat) (rest : List Char) : List Char :=
  '\n' :: List.replicate (2 * depth) ' ' ++ rest

mutual

/-- A value inside this many containers, one element or member a line,
before what follows it. -/
def prettyOnto (depth : Nat) : Json → List Char → List Char
  | null, rest => 'n' :: 'u' :: 'l' :: 'l' :: rest
  | bool true, rest => 't' :: 'r' :: 'u' :: 'e' :: rest
  | bool false, rest => 'f' :: 'a' :: 'l' :: 's' :: 'e' :: rest
  | num n, rest => n.chars ++ rest
  | str s, rest => stringOnto s rest
  | arr [], rest => '[' :: ']' :: rest
  | arr (item :: items), rest =>
    '[' :: newLine (depth + 1) (prettyOnto (depth + 1) item (prettyItems depth items rest))
  | obj [], rest => '{' :: '}' :: rest
  | obj ((key, value) :: members), rest =>
    '{' :: newLine (depth + 1) (stringOnto key (':' :: ' ' ::
      prettyOnto (depth + 1) value (prettyMembers depth members rest)))

/-- What follows the first element of an array. -/
def prettyItems (depth : Nat) : List Json → List Char → List Char
  | [], rest => newLine depth (']' :: rest)
  | item :: items, rest =>
    ',' :: newLine (depth + 1) (prettyOnto (depth + 1) item (prettyItems depth items rest))

/-- What follows the first member of an object. -/
def prettyMembers (depth : Nat) : List (String × Json) → List Char → List Char
  | [], rest => newLine depth ('}' :: rest)
  | (key, value) :: members, rest =>
    ',' :: newLine (depth + 1) (stringOnto key (':' :: ' ' ::
      prettyOnto (depth + 1) value (prettyMembers depth members rest)))

end

/-- A value with one element or member a line. -/
def pretty (j : Json) : String := String.ofList (j.prettyOnto 0 [])

end Json

end OverrideCheck
