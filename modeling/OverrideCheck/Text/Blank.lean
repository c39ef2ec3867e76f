/-!
# `OverrideCheck.Text.Blank`: surrounding blanks and the case of letters

Words that a user writes are compared without the blanks around them.
Blank is every character with the property White_Space, not only the
four that a JSON text allows between its tokens.
-/

set_option autoImplicit false

namespace OverrideCheck.Text

/-- Ranges of code points that are blank, both ends included. -/
def blankRanges : List (Nat × Nat) :=
  [(0x09, 0x0d), (0x20, 0x20), (0x85, 0x85), (0xa0, 0xa0), (0x1680, 0x1680), (0x2000, 0x200a),
    (0x2028, 0x2029), (0x202f, 0x202f), (0x205f, 0x205f), (0x3000, 0x3000)]

/-- Whether a character is blank. -/
def isBlank (c : Char) : Bool :=
  blankRanges.any fun (first, last) => first ≤ c.toNat && c.toNat ≤ last

/-- A text without the blanks at its ends. -/
def trim (text : String) : String :=
  String.ofList ((text.toList.dropWhile isBlank).reverse.dropWhile isBlank).reverse

/-- A word without the blanks at its ends and with small letters. Only
the letters A to Z are turned: no other character becomes one of those
in the words that are looked for. -/
def word (text : String) : String := String.ofList ((trim text).toList.map Char.toLower)

end OverrideCheck.Text
