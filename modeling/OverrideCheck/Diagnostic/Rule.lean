/-!
# `OverrideCheck.Diagnostic.Rule`: the rules that an audit reports on

Every kind of report has a number, a severity and a text with
placeholders. This module is the table of them.
-/

set_option autoImplicit false

namespace OverrideCheck

/-- How much a report matters. -/
inductive Severity where
  | warning
  | error
  | suggestion
  | message
  deriving DecidableEq, Repr, Inhabited

namespace Severity

/-- The word for the severity. -/
def name : Severity → String
  | warning => "warning"
  | error => "error"
  | suggestion => "suggestion"
  | message => "message"

/-- Every severity. -/
def all : List Severity := [warning, error, suggestion, message]

/-- The severity of a word. -/
def ofName? (name : String) : Option Severity := all.find? (·.name = name)

end Severity

/-- What can be reported. -/
inductive Rule where
  | memberKindChanged
  | staticModifierChanged
  | propertyOptionalityChanged
  | propertyMutabilityChanged
  | propertyTypeNotCompatible
  | parameterCountChanged
  | parameterTypeChanged
  | parameterOptionalityChanged
  | parameterVariadicChanged
  | returnTypeNotCompatible
  | returnOptionalityChanged
  | unresolvedTypeReference
  | inheritanceCycle
  | inheritanceWalkLimitExceeded
  | overriddenDeclarationIsHere
  deriving DecidableEq, Repr, Inhabited

namespace Rule

/-- Every rule, in the order of the numbers. -/
def all : List Rule :=
  [memberKindChanged, staticModifierChanged, propertyOptionalityChanged,
    propertyMutabilityChanged, propertyTypeNotCompatible, parameterCountChanged,
    parameterTypeChanged, parameterOptionalityChanged, parameterVariadicChanged,
    returnTypeNotCompatible, returnOptionalityChanged, unresolvedTypeReference,
    inheritanceCycle, inheritanceWalkLimitExceeded, overriddenDeclarationIsHere]

/-- The number of a rule. -/
def code : Rule → Nat
  | memberKindChanged => 5001
  | staticModifierChanged => 5002
  | propertyOptionalityChanged => 5003
  | propertyMutabilityChanged => 5004
  | propertyTypeNotCompatible => 5005
  | parameterCountChanged => 5006
  | parameterTypeChanged => 5007
  | parameterOptionalityChanged => 5008
  | parameterVariadicChanged => 5009
  | returnTypeNotCompatible => 5010
  | returnOptionalityChanged => 5011
  | unresolvedTypeReference => 5012
  | inheritanceCycle => 5013
  | inheritanceWalkLimitExceeded => 5014
  | overriddenDeclarationIsHere => 5100

/-- The severity of a rule. Only the pointer to an overridden
declaration is not an error. -/
def severity : Rule → Severity
  | overriddenDeclarationIsHere => .message
  | _ => .error

/-- The text of a rule. A number in braces stands for the argument of
that position. -/
def template : Rule → String
  | memberKindChanged =>
    "'\x7b0\x7d' is declared as a \x7b1\x7d, but overrides '\x7b2\x7d' which is declared as a "
      ++ "\x7b3\x7d."
  | staticModifierChanged =>
    "'\x7b0\x7d' changes the static modifier of overridden member '\x7b1\x7d'."
  | propertyOptionalityChanged =>
    "'\x7b0\x7d' changes the optionality of overridden property '\x7b1\x7d'."
  | propertyMutabilityChanged =>
    "'\x7b0\x7d' changes the mutability of overridden property '\x7b1\x7d'."
  | propertyTypeNotCompatible =>
    "Property type '\x7b0\x7d' of '\x7b1\x7d' is not a valid override of type '\x7b2\x7d' "
      ++ "declared by '\x7b3\x7d'."
  | parameterCountChanged =>
    "'\x7b0\x7d' declares \x7b1\x7d parameter(s), but overridden method '\x7b2\x7d' declares "
      ++ "\x7b3\x7d."
  | parameterTypeChanged =>
    "Parameter '\x7b0\x7d' of '\x7b1\x7d' has type '\x7b2\x7d', but the overridden method "
      ++ "'\x7b3\x7d' declares type '\x7b4\x7d'."
  | parameterOptionalityChanged =>
    "Parameter '\x7b0\x7d' of '\x7b1\x7d' changes optionality from the overridden method "
      ++ "'\x7b2\x7d'."
  | parameterVariadicChanged =>
    "Parameter '\x7b0\x7d' of '\x7b1\x7d' changes variadic-ness from the overridden method "
      ++ "'\x7b2\x7d'."
  | returnTypeNotCompatible =>
    "Return type '\x7b0\x7d' of '\x7b1\x7d' is not a valid override of return type '\x7b2\x7d' "
      ++ "declared by '\x7b3\x7d'."
  | returnOptionalityChanged =>
    "'\x7b0\x7d' changes the optionality of the return value of overridden method '\x7b1\x7d'."
  | unresolvedTypeReference =>
    "Type '\x7b0\x7d' referenced by '\x7b1\x7d' could not be resolved in the assembly or its "
      ++ "dependencies."
  | inheritanceCycle =>
    "The inheritance graph of '\x7b0\x7d' contains a cycle through '\x7b1\x7d'."
  | inheritanceWalkLimitExceeded =>
    "The inheritance graph of '\x7b0\x7d' is nested too deeply to check beyond '\x7b1\x7d'."
  | overriddenDeclarationIsHere => "'\x7b0\x7d' is declared here."

/-- The rule of a number. -/
def ofCode? (code : Nat) : Option Rule := all.find? (·.code = code)

theorem ofCode?_code (r : Rule) : ofCode? r.code = some r := by
  cases r <;> decide

end Rule

end OverrideCheck
