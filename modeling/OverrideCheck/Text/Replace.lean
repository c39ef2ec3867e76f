/-!
# `OverrideCheck.Text.Replace`: replacing one text by another

`replaceAll` looks for a text from left to right and replaces each
occurrence that does not overlap an earlier one. What was put in is not
looked at again.
-/

set_option autoImplicit false

namespace OverrideCheck.Text

/-- Replace every occurrence of `old`, passing over the characters of
one just replaced: `skip` of them are still to be dropped. -/
def replaceFrom (old new : List Char) : Nat → List Char → List Char
  | _, [] => []
  | skip + 1, _ :: rest => replaceFrom old new skip rest
  | 0, c :: rest =>
    if old.isPrefixOf (c :: rest) then new ++ replaceFrom old new (old.length - 1) rest
    else c :: replaceFrom old new 0 rest

/-- Replace every occurrence of a text that is not empty. -/
def replaceAll (text old new : String) : String :=
  String.ofList (replaceFrom old.toList new.toList 0 text.toList)

end OverrideCheck.Text
