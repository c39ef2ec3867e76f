import OverrideCheck.Diagnostic.Rule
import OverrideCheck.Text.Replace

/-!
# `OverrideCheck.Diagnostic.Basic`: reports

A diagnostic says what is wrong at a place of the API. The place is a
fully qualified name, or a name and a member as `pkg.Type#member`.
Notes that belong to it point to other places or give reasons.

The text is made from the rule's template by putting the arguments in
one after the other, each over the whole text. So an argument that
itself holds a placeholder of a later argument is filled in again.
-/

set_option autoImplicit false

namespace OverrideCheck

/-- The placeholder of an argument: its position in braces. -/
def placeholder (index : Nat) : String := "\x7b" ++ toString index ++ "\x7d"

/-- Put arguments in, the first one at the given position. -/
def fillFrom : Nat → String → List String → String
  | _, text, [] => text
  | index, text, arg :: args =>
    fillFrom (index + 1) (Text.replaceAll text (placeholder index) arg) args

/-- Put the arguments into a template, one after the other. -/
def fill (template : String) (args : List String) : String := fillFrom 0 template args

/-- A note that belongs to a diagnostic. -/
structure Related where
  location : String
  message : String
  severity : Severity := .message
  code : Nat := 0
  deriving DecidableEq, Repr, Inhabited

/-- A report on one place. -/
structure Diagnostic where
  location : String
  message : String
  severity : Severity := .error
  code : Nat
  related : List Related := []
  deriving DecidableEq, Repr, Inhabited

namespace Diagnostic

/-- A report by the number of a rule. A number without a rule still
gives an error: its arguments, separated by spaces. -/
def ofCode (location : String) (code : Nat) (args : List String) : Diagnostic :=
  match Rule.ofCode? code with
  | some rule =>
    { location, code, severity := rule.severity, message := fill rule.template args }
  | none => { location, code, message := " ".intercalate args }

/-- A report on a rule. -/
def ofRule (location : String) (rule : Rule) (args : List String) : Diagnostic :=
  { location, code := rule.code, severity := rule.severity, message := fill rule.template args }

theorem ofCode_code (location : String) (rule : Rule) (args : List String) :
    ofCode location rule.code args = ofRule location rule args := by
  simp [ofCode, ofRule, Rule.ofCode?_code]

/-- Whether the report counts as an error. -/
def isError (d : Diagnostic) : Bool := d.severity = .error

/-- Add a note at a place, without a number of its own. -/
def withRelated (d : Diagnostic) (location message : String) : Diagnostic :=
  { d with related := d.related ++ [{ location, message }] }

/-- The report in one line, without its notes. -/
def oneLine (d : Diagnostic) : String :=
  d.location ++ " - " ++ d.severity.name ++ " CV" ++ toString d.code ++ ": " ++ d.message

end Diagnostic

end OverrideCheck
