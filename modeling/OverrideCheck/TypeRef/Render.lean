import OverrideCheck.TypeRef.Basic

/-!
# `OverrideCheck.TypeRef.Render`: type references as people read them

The text of a reference in messages: `array<pkg.Dog>`,
`string | number`. It is for people only. Nothing compares rendered
texts, because two different references may share one: arms are joined
without parentheses, and a name may hold any character.
-/

set_option autoImplicit false

namespace OverrideCheck.TypeRef

mutual

/-- The text of a reference in messages. -/
def render : TypeRef → String
  | primitive kind => kind.name
  | named fqn => fqn
  | collection kind element => kind.name ++ "<" ++ element.render ++ ">"
  | union arms => " | ".intercalate (renderArms arms)
  | intersection arms => " & ".intercalate (renderArms arms)

/-- The texts of a list of arms. -/
def renderArms : List TypeRef → List String
  | [] => []
  | arm :: arms => arm.render :: renderArms arms

end

theorem renderArms_eq_map (arms : List TypeRef) : renderArms arms = arms.map render := by
  induction arms with
  | nil => rfl
  | cons arm arms ih => simp [renderArms, ih]

/-- The text of a reference that may be absent. -/
def renderOptional : Option TypeRef → String
  | none => "void"
  | some t => t.render

end OverrideCheck.TypeRef
