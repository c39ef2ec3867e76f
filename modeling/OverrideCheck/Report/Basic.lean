import OverrideCheck.Audit
import OverrideCheck.Report.Paint

/-!
# `OverrideCheck.Report.Basic`: results as text

There are two results to report: what the audit of an assembly found,
and the answer to a single question. An audit gives its diagnostics,
an empty line and a line with the totals; a question gives its answer
and then the reasons. Colours change nothing but the colours.
-/

set_option autoImplicit false

namespace OverrideCheck

/-- The audit of an assembly. -/
structure AuditReport where
  /-- The name of the assembly. -/
  assembly : String
  findings : Findings
  /-- The number of errors to report: those that were found, if nothing
  else is said. -/
  errorCount : Nat := findings.errorCount
  deriving DecidableEq, Repr, Inhabited

/-- The answer to the question whether a type may stand in for
another. -/
structure QueryReport where
  sub : Option TypeRef
  sup : Option TypeRef
  explanation : Explanation
  deriving DecidableEq, Repr, Inhabited

namespace Related

/-- The note in one indented line. -/
def render (color : Bool) (r : Related) : String :=
  "    " ++ Style.location.paint color r.location ++ ": " ++ r.message

end Related

namespace Diagnostic

/-- The number of the rule, if there is one. -/
def renderCode (color : Bool) (code : Nat) : String :=
  if code = 0 then "" else " " ++ Style.code.paint color ("CV" ++ toString code)

/-- The diagnostic in a line, and its notes in lines of their own. -/
def render (color : Bool) (d : Diagnostic) : String :=
  Style.location.paint color d.location ++ " - "
    ++ (Style.severity d.severity).paint color d.severity.name
    ++ renderCode color d.code ++ ": " ++ d.message
    ++ String.join (d.related.map fun r => "\n" ++ r.render color)

/-- Diagnostics one after the other, each with the end of its line. -/
def renderAll (color : Bool) (ds : List Diagnostic) : String :=
  String.join (ds.map fun d => d.render color ++ "\n")

end Diagnostic

namespace AuditReport

/-- The number of errors, if there are any. -/
def renderErrors (color : Bool) : Nat → String
  | 0 => ""
  | 1 => " " ++ Style.total.paint color "Found 1 error."
  | n => " " ++ Style.total.paint color ("Found " ++ toString n ++ " errors.")

/-- The line with the totals. -/
def renderSummary (color : Bool) (r : AuditReport) : String :=
  "Checked " ++ r.assembly ++ ": " ++ toString r.findings.overrides.length ++ " override(s), "
    ++ toString (r.findings.overrides.countP (·.covariant)) ++ " covariant."
    ++ renderErrors color r.errorCount

/-- The whole report. -/
def render (color : Bool) (r : AuditReport) : String :=
  let found := Diagnostic.renderAll color r.findings.diagnostics
  found ++ (if found.isEmpty then "" else "\n") ++ r.renderSummary color ++ "\n"

end AuditReport

namespace QueryReport

/-- The answer in a word. -/
def renderAnswer (color : Bool) (allowed : Bool) : String :=
  if allowed then Style.allowed.paint color "allowed"
  else Style.rejected.paint color "rejected"

/-- The whole report. -/
def render (color : Bool) (r : QueryReport) : String :=
  TypeRef.renderOptional r.sub ++ " -> " ++ TypeRef.renderOptional r.sup ++ ": "
    ++ renderAnswer color r.explanation.allowed ++ "\n"
    ++ String.join (r.explanation.reasons.map fun reason => "  " ++ reason.message ++ "\n")

end QueryReport

end OverrideCheck
