import OverrideCheck.Json.Numeral

/-!
# `OverrideCheck.Json.Outline`: a text as far as it is JSON

Whoever reads a text for a purpose stops at the first thing that is
wrong, and that may be a value of the wrong kind long before the text
itself breaks off. So a text is not first judged as a whole. It is
taken apart into an `Outline`: the tree of its values in the order of
the text, up to the place where it stops being JSON, if there is such a
place. Readers walk along the outline and meet that place, or not.

What a reader meets there depends on what it wants. One that needs the
value, one that passes over it and one that accepts only a string or an
object do not look equally far before they give up; `Break` holds what
each of them finds. A string can be passed over although it is no text:
half a surrogate pair matters only to a reader that wants the
characters.
-/

set_option autoImplicit false

namespace OverrideCheck.Json

/-- The two ways in which a text is not JSON. -/
inductive Cut where
  /-- A character stands where it cannot. -/
  | malformed
  /-- The text ends too early. -/
  | unfinished
  deriving DecidableEq, Repr, Inhabited

/-- The place where a text stops being JSON. -/
structure Break where
  /-- For a reader that needs the value. -/
  read : Cut
  /-- For a reader that passes over it. -/
  skip : Cut
  /-- For a reader that accepts only a string or an object. -/
  glance : Cut
  deriving DecidableEq, Repr, Inhabited

/-- A break that is the same for everyone. -/
def Break.all (c : Cut) : Break := ⟨c, c, c⟩

mutual

/-- The value at one place of a text. -/
inductive Outline where
  | null
  | bool (b : Bool)
  | num (n : Numeral)
  /-- A string. It has no text if a surrogate stands alone in it. -/
  | str (text : Option String)
  | arr (items : Items)
  | obj (members : Members)
  /-- The text breaks here. -/
  | broken (b : Break)

/-- The elements of an array from some place on. -/
inductive Items where
  | close
  /-- The text breaks between elements, perhaps after a comma. -/
  | stop (afterComma : Bool) (c : Cut)
  | item (value : Outline) (rest : Items)

/-- The members of an object from some place on. -/
inductive Members where
  | close
  /-- The text breaks between members, perhaps after a comma, or where
  the name of a member should stand. -/
  | stop (afterComma : Bool) (b : Break)
  /-- A key without text, as in `Outline.str`, has a value all the
  same. -/
  | member (key : Option String) (value : Outline) (rest : Members)

end

instance : Inhabited Outline := ⟨.null⟩
instance : Inhabited Items := ⟨.close⟩
instance : Inhabited Members := ⟨.close⟩

/-- A whole text: its value, and whether only blanks follow. -/
structure Document where
  root : Outline
  clean : Bool
  deriving Inhabited

/-! ## Strings -/

/-- A part of a string: a character, or a 16-bit unit given by its
number. -/
inductive Piece where
  | char (c : Char)
  | unit (n : Nat)
  deriving DecidableEq, Repr, Inhabited

/-- The value of a hexadecimal digit. -/
def hexDigit? (c : Char) : Option Nat :=
  if '0' ≤ c ∧ c ≤ '9' then some (c.toNat - '0'.toNat)
  else if 'a' ≤ c ∧ c ≤ 'f' then some (c.toNat - 'a'.toNat + 10)
  else if 'A' ≤ c ∧ c ≤ 'F' then some (c.toNat - 'A'.toNat + 10)
  else none

/-- The 16-bit unit of four hexadecimal digits. -/
def hexUnit? (a b c d : Char) : Option Nat := do
  let a ← hexDigit? a
  let b ← hexDigit? b
  let c ← hexDigit? c
  let d ← hexDigit? d
  return ((a * 16 + b) * 16 + c) * 16 + d

/-- The character that a letter after a backslash stands for. -/
def escaped? (c : Char) : Option Char :=
  match c with
  | '"' => some '"'
  | '\\' => some '\\'
  | '/' => some '/'
  | 'b' => some '\x08'
  | 'f' => some '\x0c'
  | 'n' => some '\n'
  | 'r' => some '\r'
  | 't' => some '\t'
  | _ => none

/-- How an escape of fewer than four further characters is wrong: it is
taken for an escape that has not ended while fewer than four bytes are
left. -/
def shortEscape (rest : List Char) : Cut :=
  if (String.ofList rest).utf8ByteSize < 4 then .unfinished else .malformed

/-- The pieces of a string from behind its opening quote, and what
follows its closing quote, or why there is none. -/
def scanString : List Char → List Piece × Except Cut (List Char)
  | [] => ([], .error .unfinished)
  | '"' :: rest => ([], .ok rest)
  | '\\' :: 'u' :: a :: b :: c :: d :: rest =>
    match hexUnit? a b c d with
    | some n => let (pieces, result) := scanString rest; (.unit n :: pieces, result)
    | none => ([], .error .malformed)
  | '\\' :: 'u' :: rest => ([], .error (shortEscape rest))
  | ['\\'] => ([], .error .unfinished)
  | '\\' :: c :: rest =>
    match escaped? c with
    | some c => let (pieces, result) := scanString rest; (.char c :: pieces, result)
    | none => ([], .error .malformed)
  | c :: rest =>
    if c.toNat < 0x20 then ([], .error .malformed)
    else let (pieces, result) := scanString rest; (.char c :: pieces, result)

/-- Whether a unit is the first half of a pair. -/
def isLeading (n : Nat) : Bool := 0xd800 ≤ n && n ≤ 0xdbff

/-- Whether a unit is the second half of a pair. -/
def isTrailing (n : Nat) : Bool := 0xdc00 ≤ n && n ≤ 0xdfff

/-- The character of a pair of units. -/
def pairChar (first second : Nat) : Char :=
  Char.ofNat (0x10000 + (first - 0xd800) * 0x400 + (second - 0xdc00))

/-- What the pieces of a string amount to. -/
inductive Joined where
  | text (chars : List Char)
  /-- The last piece is the first half of a pair. -/
  | half
  /-- A half of a pair stands alone before the end. -/
  | broken
  deriving DecidableEq, Repr, Inhabited

/-- Put a character before what the rest amounts to. -/
def Joined.cons (c : Char) : Joined → Joined
  | text chars => text (c :: chars)
  | other => other

/-- Join the pieces of a string, two halves to one character. -/
def join : List Piece → Joined
  | [] => .text []
  | .char c :: rest => (join rest).cons c
  | [.unit n] =>
    if isLeading n then .half
    else if isTrailing n then .broken
    else .text [Char.ofNat n]
  | .unit n :: .char c :: rest =>
    if isLeading n || isTrailing n then .broken
    else ((join rest).cons c).cons (Char.ofNat n)
  | .unit n :: .unit m :: rest =>
    if isLeading n then
      if isTrailing m then (join rest).cons (pairChar n m) else .broken
    else if isTrailing n then .broken
    else (join (.unit m :: rest)).cons (Char.ofNat n)

/-- The text of a string, if it is one. -/
def pieceText (pieces : List Piece) : Option String :=
  match join pieces with
  | .text chars => some (String.ofList chars)
  | _ => none

/-- The break of a string that does not end. A half pair before it
stops a reader that wants the text. -/
def stringBreak (pieces : List Piece) (c : Cut) : Break :=
  let read := if join pieces = .broken then .malformed else c
  ⟨read, c, read⟩

/-! ## Numbers and words -/

/-- Whether a character is a decimal digit. -/
def isDigit (c : Char) : Bool := '0' ≤ c && c ≤ '9'

/-- A number that lacks a digit. At the end of the text a reader waits
for it, and one that passes over the number does not. -/
def digitBreak : List Char → Break
  | [] => ⟨.unfinished, .malformed, .malformed⟩
  | _ => .all .malformed

/-- The digits of an exponent, if one follows. -/
def scanExponent (n : Numeral) : List Char → Except Break (Numeral × List Char)
  | 'e' :: rest | 'E' :: rest =>
    let (negative, rest) := match rest with
      | '+' :: rest => (false, rest)
      | '-' :: rest => (true, rest)
      | rest => (false, rest)
    match rest.takeWhile isDigit, rest.dropWhile isDigit with
    | [], rest => .error (digitBreak rest)
    | digits, rest => .ok ({ n with exponent := some (negative, digits) }, rest)
  | rest => .ok (n, rest)

/-- The digits behind a point, if one follows, and the exponent. -/
def scanFraction (n : Numeral) : List Char → Except Break (Numeral × List Char)
  | '.' :: rest =>
    match rest.takeWhile isDigit, rest.dropWhile isDigit with
    | [], rest => .error (digitBreak rest)
    | digits, rest => scanExponent { n with fraction := some digits } rest
  | rest => scanExponent n rest

/-- A numeral. No digit may follow a leading zero. -/
def scanNumeral (cs : List Char) : Except Break (Numeral × List Char) :=
  let (negative, cs) := match cs with
    | '-' :: rest => (true, rest)
    | cs => (false, cs)
  match cs.takeWhile isDigit, cs.dropWhile isDigit with
  | [], rest => .error (digitBreak rest)
  | '0' :: _ :: _, _ => .error (.all .malformed)
  | whole, rest => scanFraction { negative, whole } rest

/-- Expect the rest of a word. -/
def scanWord : List Char → List Char → Except Break (List Char)
  | [], rest => .ok rest
  | _ :: _, [] => .error ⟨.unfinished, .unfinished, .malformed⟩
  | c :: word, d :: rest => if c = d then scanWord word rest else .error (.all .malformed)

/-! ## Values -/

/-- Whether a character may stand between the tokens of a text. -/
def isSpace (c : Char) : Bool := c = ' ' || c = '\n' || c = '\t' || c = '\r'

/-- The text from its next token on. -/
def skipSpace (cs : List Char) : List Char := cs.dropWhile isSpace

/-- A part of the outline, and the text behind it unless it is cut. -/
abbrev Scanned (α : Type) := α × Option (List Char)

/-- Nothing can be read here. -/
def brokenAt (b : Break) : Scanned Outline := (.broken b, none)

/-- A value that is one word. -/
def wordValue (value : Outline) (word rest : List Char) : Scanned Outline :=
  match scanWord word rest with
  | .ok rest => (value, some rest)
  | .error b => brokenAt b

/-- A string, from behind its opening quote. -/
def stringValue (cs : List Char) : Scanned Outline :=
  match scanString cs with
  | (pieces, .ok rest) => (.str (pieceText pieces), some rest)
  | (pieces, .error c) => brokenAt (stringBreak pieces c)

/-- A number. -/
def numberValue (cs : List Char) : Scanned Outline :=
  match scanNumeral cs with
  | .ok (n, rest) => (.num n, some rest)
  | .error b => brokenAt b

mutual

/-- The value at the front of a text. The number bounds the steps; twice
the length of the text is enough. -/
def scanValue : Nat → List Char → Scanned Outline
  | 0, _ => brokenAt (.all .malformed)
  | steps + 1, cs =>
    match skipSpace cs with
    | [] => brokenAt (.all .unfinished)
    | '"' :: rest => stringValue rest
    | '[' :: rest => let (items, rest) := scanItems steps true rest; (.arr items, rest)
    | '{' :: rest => let (members, rest) := scanMembers steps true rest; (.obj members, rest)
    | 'n' :: rest => wordValue .null ['u', 'l', 'l'] rest
    | 't' :: rest => wordValue (.bool true) ['r', 'u', 'e'] rest
    | 'f' :: rest => wordValue (.bool false) ['a', 'l', 's', 'e'] rest
    | c :: rest =>
      if c = '-' || isDigit c then numberValue (c :: rest) else brokenAt (.all .malformed)

/-- The elements of an array: the first one, or those after one. -/
def scanItems : Nat → Bool → List Char → Scanned Items
  | 0, _, _ => (.stop false .malformed, none)
  | steps + 1, first, cs =>
    let element (cs : List Char) : Scanned Items :=
      match scanValue steps cs with
      | (value, none) => (.item value .close, none)
      | (value, some rest) =>
        let (items, rest) := scanItems steps false rest
        (.item value items, rest)
    match skipSpace cs, first with
    | [], _ => (.stop false .unfinished, none)
    | ']' :: rest, _ => (.close, some rest)
    | cs, true => element cs
    | ',' :: rest, false =>
      match skipSpace rest with
      | [] => (.stop true .unfinished, none)
      | ']' :: _ => (.stop true .malformed, none)
      | cs => element cs
    | _, false => (.stop false .malformed, none)

/-- The members of an object: the first one, or those after one. -/
def scanMembers : Nat → Bool → List Char → Scanned Members
  | 0, _, _ => (.stop false (.all .malformed), none)
  | steps + 1, first, cs =>
    -- This goes on behind the opening quote of a key.
    let member (cs : List Char) : Scanned Members :=
      match scanString cs with
      | (pieces, .error c) => (.stop (!first) (stringBreak pieces c), none)
      | (pieces, .ok rest) =>
        let key := pieceText pieces
        match skipSpace rest with
        | ':' :: rest =>
          match scanValue steps rest with
          | (value, none) => (.member key value .close, none)
          | (value, some rest) =>
            let (members, rest) := scanMembers steps false rest
            (.member key value members, rest)
        | [] => (.member key (.broken (.all .unfinished)) .close, none)
        | _ => (.member key (.broken (.all .malformed)) .close, none)
    match skipSpace cs, first with
    | [], _ => (.stop false (.all .unfinished), none)
    | '}' :: rest, _ => (.close, some rest)
    | '"' :: rest, true => member rest
    | _, true => (.stop false (.all .malformed), none)
    | ',' :: rest, false =>
      match skipSpace rest with
      | [] => (.stop true (.all .unfinished), none)
      | '"' :: rest => member rest
      | _ => (.stop true (.all .malformed), none)
    | _, false => (.stop false (.all .malformed), none)

end

/-- Take a text apart. -/
def Document.ofText (text : String) : Document :=
  let cs := text.toList
  match scanValue (2 * cs.length + 2) cs with
  | (root, none) => ⟨root, false⟩
  | (root, some rest) => ⟨root, (skipSpace rest).isEmpty⟩

end OverrideCheck.Json
