import OverrideCheck.Diagnostic.Rule
import OverrideCheck.Text.Replace

/-!
# `OverrideCheck.Report.Paint`: coloured text

A terminal colours what stands between a start sequence and the reset
sequence. A text that itself has reset sequences would lose its colour
at the first of them, so the start sequence is put in again behind each
of them.
-/

set_option autoImplicit false

namespace OverrideCheck

/-- The parts of a report that have a colour. -/
inductive Style where
  | location
  | severity (s : Severity)
  | code
  | allowed
  | rejected
  /-- The number of errors. -/
  | total
  deriving DecidableEq, Repr, Inhabited

namespace Style

/-- The codes of the colour, after that of bold letters where it is
bold. -/
def codes : Style → String
  | location => "36"
  | severity .error => "1;31"
  | severity .warning => "1;33"
  | severity .suggestion => "1;34"
  | severity .message => "1;36"
  | code => "94"
  | allowed => "1;32"
  | rejected => "1;31"
  | total => "31"

/-- The sequence that turns the colour on. -/
def start (s : Style) : String := "\x1b[" ++ s.codes ++ "m"

/-- The sequence that turns all colours off. -/
def reset : String := "\x1b[0m"

/-- A text in colour. -/
def apply (s : Style) (text : String) : String :=
  s.start ++ Text.replaceAll text reset (reset ++ s.start) ++ reset

/-- A text, in colour if colours are on. -/
def paint (s : Style) (color : Bool) (text : String) : String :=
  if color then s.apply text else text

end Style

end OverrideCheck
