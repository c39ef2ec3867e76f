/-!
# `OverrideCheck.Json.Binary64`: numbers with 53 significant bits

A numeral that is no machine integer stands for a binary floating
point number. Only messages ever show one, but whether a numeral is in
range decides whether a text is read at all, so the arithmetic is done
exactly here, on natural numbers.

`ofRatio` is the nearest such number to a quotient, a tie going to the
even significand. `shortest` finds the fewest decimal digits that lie
nearer to a number than to its neighbours, and of those the digits
nearest to it. Where two decimals are equally near, the one that ends
in an even digit is taken.
-/

set_option autoImplicit false

namespace OverrideCheck.Json

/-- A number that is not negative: `significand * 2 ^ exponent`, with a
significand below `2 ^ 53` and an exponent of at least `-1074`. -/
structure Binary64 where
  significand : Nat
  exponent : Int
  deriving DecidableEq, Repr, Inhabited

namespace Binary64

/-- Zero. -/
def zero : Binary64 := ⟨0, -1074⟩

/-- The number as a quotient. -/
def ratio (x : Binary64) : Nat × Nat :=
  (x.significand * Nat.pow 2 x.exponent.toNat, Nat.pow 2 (-x.exponent).toNat)

/-- The nearest whole number to a quotient, a tie going to the even
one. -/
def roundEven (num den : Nat) : Nat :=
  let q := num / den
  let r := num % den
  if den < 2 * r ∨ (2 * r = den ∧ q % 2 = 1) then q + 1 else q

/-- A quotient measured in units of a power of two. -/
def scaled (num den : Nat) (exponent : Int) : Nat × Nat :=
  (num * Nat.pow 2 (-exponent).toNat, den * Nat.pow 2 exponent.toNat)

/-- The nearest number to a quotient, or nothing if that is too
large. -/
def ofRatio (num den : Nat) : Option Binary64 :=
  if num = 0 then some zero
  else
    -- The quotient lies between 2 ^ 52 and 2 ^ 54 of these units.
    let guess : Int := (num.log2 : Int) - den.log2 - 53
    let (n, d) := scaled num den guess
    let exponent := max (if Nat.pow 2 53 ≤ n / d then guess + 1 else guess) (-1074)
    let (n, d) := scaled num den exponent
    let significand := roundEven n d
    let x : Binary64 :=
      if significand = Nat.pow 2 53 then ⟨Nat.pow 2 52, exponent + 1⟩
      else ⟨significand, exponent⟩
    if 971 < x.exponent then none else some x

/-- The nearest number to a natural number. -/
def ofNat (n : Nat) : Option Binary64 := ofRatio n 1

/-- The nearest number to a product. -/
def mul (x y : Binary64) : Option Binary64 :=
  let (a, b) := x.ratio
  let (c, d) := y.ratio
  ofRatio (a * c) (b * d)

/-- The nearest number to a quotient of two. -/
def div (x y : Binary64) : Option Binary64 :=
  let (a, b) := x.ratio
  let (c, d) := y.ratio
  ofRatio (a * d) (b * c)

/-- The position of the first decimal digit of a quotient that is not
zero: `p` with `10 ^ p ≤ num / den < 10 ^ (p + 1)`. -/
def magnitude (num den : Nat) : Int :=
  if den ≤ num then ((Nat.toDigits 10 (num / den)).length : Int) - 1
  else
    let digits := (Nat.toDigits 10 (den / num)).length
    if den ≤ num * Nat.pow 10 (digits - 1) then 1 - (digits : Int) else -(digits : Int)

/-- Digits, and the position of the first: `d₀ . d₁ d₂ … * 10 ^ position`. -/
structure Digits where
  digits : List Char
  position : Int
  deriving DecidableEq, Repr, Inhabited

/-- Whether `value / unit` lies nearer to the number than to its
neighbours. All three are in units of a quarter of the last place; the
ends count if the significand is even. -/
def isNear (x : Binary64) (num den : Nat) : Bool :=
  let (a, b) := scaled 1 1 (x.exponent - 2)
  -- `num / den` compared with `edge` quarters, that is `edge * b / a`.
  let lower :=
    if x.significand = Nat.pow 2 52 ∧ -1074 < x.exponent then 4 * x.significand - 1
    else 4 * x.significand - 2
  let upper := 4 * x.significand + 2
  let even := x.significand % 2 = 0
  let left := lower * b * den
  let right := upper * b * den
  let here := num * a
  if even then left ≤ here ∧ here ≤ right else left < here ∧ here < right

/-- The nearest decimal of this many digits, if it is near enough. A tie
goes to the even one. -/
def attempt (x : Binary64) (count : Nat) : Option Digits :=
  let (num, den) := x.ratio
  let p := magnitude num den
  -- One unit of the last of `count` digits is `10 ^ last`.
  let last := p - (count : Int) + 1
  let up := Nat.pow 10 (-last).toNat
  let down := Nat.pow 10 last.toNat
  let below := num * up / (den * down)
  let candidates := [below, below + 1].filter fun c => isNear x (c * down) up
  -- Below a power of two the numbers are denser, so the nearest decimal
  -- may be too far away there while the one above is not.
  let nearest := roundEven (num * up) (den * down)
  let best := if candidates.contains nearest then some nearest else candidates.head?
  best.map fun c =>
    let ds := Nat.toDigits 10 c
    -- A carry may have added a digit, and trailing zeros say nothing.
    let trimmed := (ds.reverse.dropWhile (· = '0')).reverse
    ⟨trimmed, last + (ds.length : Int) - 1⟩

/-- The fewest digits that stand for the number and no other. Seventeen
always do. -/
def shortest (x : Binary64) : Digits :=
  ((List.range 17).findSome? fun i => attempt x (i + 1)).getD ⟨['0'], 0⟩

/-- The text of a number. Without an exponent if the point falls within
sixteen digits before or four zeros behind it, and then always with a
point. An exponent always has its sign. -/
def render (x : Binary64) : String :=
  if x.significand = 0 then "0.0"
  else
    let ⟨ds, position⟩ := x.shortest
    let point := position + 1
    let count : Int := ds.length
    let zeros (n : Int) : List Char := List.replicate n.toNat '0'
    let chars : List Char :=
      if count ≤ point ∧ point ≤ 16 then ds ++ zeros (point - count) ++ ['.', '0']
      else if 0 < point ∧ point ≤ 16 then ds.take point.toNat ++ '.' :: ds.drop point.toNat
      else if -5 < point ∧ point ≤ 0 then ['0', '.'] ++ zeros (-point) ++ ds
      else
        let mantissa := match ds with
          | [d] => [d]
          | d :: rest => d :: '.' :: rest
          | [] => []
        let sign := if position < 0 then '-' else '+'
        mantissa ++ 'e' :: sign :: Nat.toDigits 10 position.natAbs
    String.ofList chars

end Binary64

end OverrideCheck.Json
