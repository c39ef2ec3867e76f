import OverrideCheck.Text.Blank

/-!
# `OverrideCheck.Log`: what is logged, and how

Nothing is logged unless somebody asks for it. The more specific of two
settings says what to log, also when it is empty, and the other counts
only when that one is absent.
-/

set_option autoImplicit false

namespace OverrideCheck

/-- How log lines look. -/
inductive LogFormat where
  | text
  | tree
  | json
  deriving DecidableEq, Repr, Inhabited

/-- The format of a word. Every word that names no format gives plain
text. -/
def LogFormat.ofWord (word : String) : LogFormat :=
  match Text.word word with
  | "tree" => .tree
  | "json" => .json
  | _ => .text

/-- What is logged, and how. -/
structure LogSettings where
  directives : String
  format : LogFormat
  deriving DecidableEq, Repr, Inhabited

/-- The settings of a run. -/
def LogSettings.resolve (own general format : Option String) : Option LogSettings :=
  (own <|> general).map fun directives =>
    { directives, format := (format.map LogFormat.ofWord).getD .text }

end OverrideCheck
