import OverrideCheck.Report.Basic
import OverrideCheck.Json.Value

/-!
# `OverrideCheck.Interchange.Report`: results as JSON

Results are written for other programs. They are never read back, so
types appear as they are rendered in messages.
-/

set_option autoImplicit false

namespace OverrideCheck.Interchange

/-- The side of a comparison as a word. -/
def voidSideName : VoidSide → String
  | .subtype => "subtype"
  | .supertype => "supertype"

/-- The members that name the two sides of a comparison. -/
def sidesJson (sub sup : String) : List (String × Json) :=
  [("subtype", .str sub), ("supertype", .str sup)]

/-- The name of a reason, and its members. -/
def reasonMembers : Reason → String × List (String × Json)
  | .voidMismatch side => ("void_mismatch", [("void_side", .str (voidSideName side))])
  | .malformedType t => ("malformed_type", [("type_ref", .str t.render)])
  | .mapInvariant a b => ("map_invariant", sidesJson a.render b.render)
  | .unionNotNarrowable a b => ("union_not_narrowable", sidesJson a.render b.render)
  | .intersectionNotCovariant a b => ("intersection_not_covariant", sidesJson a.render b.render)
  | .primitiveNotNarrowable a b => ("primitive_not_narrowable", sidesJson a.render b.render)
  | .shapeMismatch a b => ("shape_mismatch", sidesJson a.render b.render)
  | .unresolvedType fqn => ("unresolved_type", [("fqn", .str fqn)])
  | .inheritanceCycle fqn => ("inheritance_cycle", [("fqn", .str fqn)])
  | .walkLimitExceeded place => ("walk_limit_exceeded", [("at", .str place.render)])
  | .notASubclass a b => ("not_a_subclass", sidesJson a b)
  | .interfaceNotExtended a b => ("interface_not_extended", sidesJson a b)
  | .interfaceNotImplemented a b => ("interface_not_implemented", sidesJson a b)
  | .kindMismatch a aKind b bKind =>
    ("kind_mismatch",
      [("subtype", .str a), ("subtype_kind", .str aKind.name),
        ("supertype", .str b), ("supertype_kind", .str bKind.name)])
  | .arrayElementMismatch a b => ("array_element_mismatch", sidesJson a.render b.render)

/-- A reason as JSON. -/
def reasonJson (r : Reason) : Json :=
  let (name, members) := reasonMembers r
  .obj (("reason", .str name) :: members)

/-- The members of an explanation. -/
def explanationMembers (e : Explanation) : List (String × Json) :=
  [("allowed", .bool e.allowed), ("reasons", .arr (e.reasons.map reasonJson))]

/-- A note as JSON. -/
def relatedJson (r : Related) : Json :=
  .obj [("location", .str r.location), ("message_text", .str r.message),
    ("category", .str r.severity.name), ("code", .nat r.code)]

/-- A diagnostic as JSON. Its notes are left out if there are none. -/
def diagnosticJson (d : Diagnostic) : Json :=
  .obj ([("location", .str d.location), ("message_text", .str d.message),
      ("category", .str d.severity.name), ("code", .nat d.code)]
    ++ if d.related.isEmpty then []
      else [("related_information", .arr (d.related.map relatedJson))])

/-- A valid override as JSON. -/
def overrideJson (o : ValidOverride) : Json :=
  .obj [("typeFqn", .str o.typeFqn), ("member", .str o.member),
    ("overrides", .str o.overrides), ("covariant", .bool o.covariant)]

/-- The audit of an assembly as JSON. -/
def auditReportJson (r : AuditReport) : Json :=
  .obj [("assembly", .str r.assembly), ("errorCount", .nat r.errorCount),
    ("diagnostics", .arr (r.findings.diagnostics.map diagnosticJson)),
    ("overrides", .arr (r.findings.overrides.map overrideJson))]

/-- The answer to a question as JSON. -/
def queryReportJson (r : QueryReport) : Json :=
  .obj (sidesJson (TypeRef.renderOptional r.sub) (TypeRef.renderOptional r.sup)
    ++ explanationMembers r.explanation)

end OverrideCheck.Interchange
