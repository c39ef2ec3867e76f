import OverrideCheck.Text.Printable

/-!
# `OverrideCheck.Text.Quoted`: texts quoted in messages

A message that quotes a text of unknown content writes it between
double quotes, with a backslash before quotes and backslashes, letters
for the usual controls, and the code point of any other character that
cannot be shown as it is.
-/

set_option autoImplicit false

namespace OverrideCheck.Text

/-- A code point in braces, as an escape. -/
def codePointEscape (c : Char) : List Char :=
  ['\\', 'u', '{'] ++ Nat.toDigits 16 c.toNat ++ ['}']

/-- One character of a quoted text. -/
def quoteChar (c : Char) : List Char :=
  if c = '"' then ['\\', '"']
  else if c = '\\' then ['\\', '\\']
  else if c = '\n' then ['\\', 'n']
  else if c = '\r' then ['\\', 'r']
  else if c = '\t' then ['\\', 't']
  else if c.toNat = 0 then ['\\', '0']
  else if isPrintable c then [c]
  else codePointEscape c

/-- A text between double quotes. -/
def quote (text : String) : String :=
  String.ofList ('"' :: text.toList.flatMap quoteChar ++ ['"'])

end OverrideCheck.Text
