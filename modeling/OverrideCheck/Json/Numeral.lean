import OverrideCheck.Json.Binary64

/-!
# `OverrideCheck.Json.Numeral`: numbers as they are written

A numeral is kept as it is written, because passing over it needs no
more. Reading it makes an integer of it if it is written like one and
fits a machine word, and else a floating point number, which it can be
too large for.

The value of a long numeral is that of its leading digits: as many as
fit in a word of 64 bits, scaled by a power of ten. Both the power and
the result are rounded, so the last bit may differ from that of the
nearest number.
-/

set_option autoImplicit false

namespace OverrideCheck.Json

/-- A number as it is written. -/
structure Numeral where
  negative : Bool := false
  /-- The digits before the point. There is at least one. -/
  whole : List Char
  /-- The digits behind the point, if there is a point. -/
  fraction : Option (List Char) := none
  /-- The exponent: whether it is negative, and its digits. -/
  exponent : Option (Bool × List Char) := none
  deriving DecidableEq, Repr, Inhabited

/-- What a numeral stands for. -/
inductive Number where
  | integer (n : Int)
  | float (negative : Bool) (magnitude : Binary64)
  deriving DecidableEq, Repr, Inhabited

/-- The text of a number in messages. -/
def Number.render : Number → String
  | integer n => toString n
  | float negative magnitude => (if negative then "-" else "") ++ magnitude.render

namespace Numeral

/-- The numeral of a natural number. -/
def ofNat (n : Nat) : Numeral := { whole := Nat.toDigits 10 n }

/-- The value of a digit. -/
def digit (c : Char) : Nat := c.toNat - '0'.toNat

/-- The value of a row of digits. -/
def value (digits : List Char) : Nat := digits.foldl (fun n c => n * 10 + digit c) 0

/-- The characters of a numeral. -/
def chars (n : Numeral) : List Char :=
  (if n.negative then ['-'] else [])
    ++ n.whole
    ++ (match n.fraction with
      | some ds => '.' :: ds
      | none => [])
    ++ (match n.exponent with
      | some (negative, ds) => 'e' :: (if negative then '-' :: ds else ds)
      | none => [])

/-- The largest word. -/
def maxWord : Nat := Nat.pow 2 64 - 1

/-- The largest exponent that is counted. -/
def maxExponent : Nat := Nat.pow 2 31 - 1

/-- The leading digits that fit in a word, and how many do not. -/
def leading (limit : Nat) : Nat → List Char → Nat × Nat
  | n, [] => (n, 0)
  | n, c :: rest =>
    if limit < n * 10 + digit c then (n, rest.length + 1)
    else leading limit (n * 10 + digit c) rest

/-- The powers of ten that a number is scaled by in one step. -/
def maxPower : Nat := 308

/-- A rounded power of ten. -/
def power (n : Nat) : Binary64 := (Binary64.ofNat (Nat.pow 10 n)).getD .zero

/-- A number divided by a power of ten. A large power is divided by in
two steps, and beyond those nothing is left of the number. -/
def divPower (x : Binary64) (n : Nat) : Binary64 :=
  if n ≤ maxPower then (x.div (power n)).getD .zero
  else if n ≤ 2 * maxPower then
    (((x.div (power maxPower)).getD .zero).div (power (n - maxPower))).getD .zero
  else .zero

/-- A word scaled by a power of ten, or nothing if that is too large. -/
def scale (significand : Nat) (exponent : Int) : Option Binary64 := do
  let x ← Binary64.ofNat significand
  if x = .zero then return x
  if 0 ≤ exponent then
    if (maxPower : Int) < exponent then none else x.mul (power exponent.toNat)
  else return divPower x (-exponent).toNat

/-- The floating point value of the digits. -/
def toFloat? (n : Numeral) : Option Binary64 :=
  let (significand, dropped) := leading maxWord 0 n.whole
  let fraction := n.fraction.getD []
  let (significand, unused) := leading maxWord significand fraction
  let start : Int := dropped - (fraction.length - unused : Nat)
  match n.exponent with
  | none => scale significand start
  | some (negative, ds) =>
    let (exponent, unused) := leading maxExponent 0 ds
    if unused ≠ 0 then
      -- An exponent beyond counting leaves zero, or nothing readable.
      if significand ≠ 0 ∧ !negative then none else some .zero
    else scale significand (if negative then start - exponent else start + exponent)

/-- Whether the numeral is written like an integer. -/
def isWhole (n : Numeral) : Bool := n.fraction.isNone && n.exponent.isNone

/-- What the numeral stands for, or nothing if it is out of range. A
negative zero is no integer. -/
def read? (n : Numeral) : Option Number :=
  let magnitude := value n.whole
  if n.isWhole ∧ !n.negative ∧ magnitude ≤ maxWord then some (.integer magnitude)
  else if n.isWhole ∧ n.negative ∧ magnitude ≠ 0 ∧ magnitude ≤ Nat.pow 2 63 then
    some (.integer (-magnitude))
  else n.toFloat?.map (.float n.negative)

/-- The natural number that the numeral is, if it is one. -/
def toNat? (n : Numeral) : Option Nat :=
  if n.isWhole ∧ !n.negative then some (value n.whole) else none

end Numeral

end OverrideCheck.Json
