import OverrideCheck.Proofs.Json.Nesting

/-!
# `OverrideCheck.Proofs.Json.Scanning`: written texts are taken apart again

A text that was written for a value is JSON from its first to its last
character, and its outline is that of the value (`ofText_pretty`).

Strings come first. A character between quotes is written in one of
three forms, and each form is scanned as one piece that stands for the
character (`scanString_escapeChar`). So a string of any characters is
scanned as its own text (`scanString_quoted`).

Values, elements and members are then scanned by an induction over what
is written. The scanner counts its steps down, so the induction carries
a bound on the text that is left: every step takes a character away,
and two steps are enough for one character.
-/

set_option autoImplicit false

namespace OverrideCheck.Json

/-! ## Strings -/

/-- A unit that is no half of a pair is a character by itself. -/
theorem join_unit {n : Nat} (hleading : isLeading n = false) (htrailing : isTrailing n = false)
    (pieces : List Piece) : join (.unit n :: pieces) = (join pieces).cons (Char.ofNat n) := by
  match pieces with
  | [] => simp [join, hleading, htrailing, Joined.cons]
  | .char c :: rest => simp [join, hleading, htrailing]
  | .unit m :: rest => simp [join, hleading, htrailing]

theorem hexUnit?_control : ∀ n < 0x20,
    hexUnit? '0' '0' (Nat.digitChar (n / 16)) (Nat.digitChar (n % 16)) = some n := by
  decide

theorem not_half_of_control : ∀ n < 0x20, isLeading n = false ∧ isTrailing n = false := by
  decide

/-- An escaped character is scanned as one piece, and the piece stands
for the character. -/
theorem scanString_escapeChar (c : Char) (rest : List Char) :
    ∃ piece, scanString (escapeChar c ++ rest)
        = (piece :: (scanString rest).1, (scanString rest).2)
      ∧ ∀ pieces, join (piece :: pieces) = (join pieces).cons c := by
  obtain ⟨e, he, hescaped⟩ | ⟨he, hcontrol⟩ | ⟨he, hquote, hslash, hprintable⟩ := escapeChar_cases c
  · -- The letter after the backslash is not `u`, which stands for nothing by itself.
    have hu : e ≠ 'u' := by
      rintro rfl
      simp [escaped?] at hescaped
    refine ⟨.char c, ?_, fun pieces => rfl⟩
    rw [he]
    show scanString ('\\' :: e :: rest) = _
    rw [scanString, hescaped] <;> simp_all
  · obtain ⟨hleading, htrailing⟩ := not_half_of_control c.toNat hcontrol
    refine ⟨.unit c.toNat, ?_, fun pieces => ?_⟩
    · rw [he]
      show scanString ('\\' :: 'u' :: '0' :: '0' :: _ :: _ :: rest) = _
      rw [scanString, hexUnit?_control c.toNat hcontrol]
    · rw [join_unit hleading htrailing, Char.ofNat_toNat]
  · refine ⟨.char c, ?_, fun pieces => rfl⟩
    rw [he]
    show scanString (c :: rest) = _
    rw [scanString, if_neg (Nat.not_lt.2 hprintable)] <;> simp_all

/-- What is written between quotes is scanned as its own text. -/
theorem scanString_quoted (cs rest : List Char) :
    ∃ pieces, scanString (cs.flatMap escapeChar ++ '"' :: rest) = (pieces, .ok rest)
      ∧ join pieces = .text cs := by
  induction cs with
  | nil => exact ⟨[], rfl, rfl⟩
  | cons c cs ih =>
    obtain ⟨pieces, hscan, hjoin⟩ := ih
    obtain ⟨piece, hpiece, hstands⟩ :=
      scanString_escapeChar c (cs.flatMap escapeChar ++ '"' :: rest)
    refine ⟨piece :: pieces, ?_, ?_⟩
    · rw [List.flatMap_cons, List.append_assoc, hpiece, hscan]
    · rw [hstands, hjoin]
      rfl

/-- A written string is scanned as its text. -/
theorem scanString_text (s : String) (rest : List Char) :
    ∃ pieces, scanString (s.toList.flatMap escapeChar ++ '"' :: rest) = (pieces, .ok rest)
      ∧ pieceText pieces = some s := by
  obtain ⟨pieces, hscan, hjoin⟩ := scanString_quoted s.toList rest
  exact ⟨pieces, hscan, by simp [pieceText, hjoin]⟩

/-! ## Blanks -/

theorem skipSpace_cons {c : Char} (h : isSpace c = false) (cs : List Char) :
    skipSpace (c :: cs) = c :: cs := by
  simp [skipSpace, h]

theorem skipSpace_newLine (depth : Nat) (cs : List Char) :
    skipSpace (newLine depth cs) = skipSpace cs := by
  have hblank : ∀ c ∈ '\n' :: List.replicate (2 * depth) ' ', isSpace c = true := by
    intro c hc
    obtain rfl | ⟨-, rfl⟩ := by simpa [List.mem_replicate] using hc
    · rfl
    · rfl
  exact List.dropWhile_append_of_pos hblank

/-- A written value starts with a character that is no blank and closes
no array. -/
theorem prettyOnto_head (depth : Nat) (rest : List Char) : ∀ j : Json, j.NumberFree →
    ∃ c cs, prettyOnto depth j rest = c :: cs ∧ isSpace c = false ∧ c ≠ ']'
  | null, _ => ⟨'n', _, rfl, by decide⟩
  | bool true, _ => ⟨'t', _, rfl, by decide⟩
  | bool false, _ => ⟨'f', _, rfl, by decide⟩
  | str _, _ => ⟨'"', _, rfl, by decide⟩
  | arr [], _ => ⟨'[', _, rfl, by decide⟩
  | arr (_ :: _), _ => ⟨'[', _, rfl, by decide⟩
  | obj [], _ => ⟨'{', _, rfl, by decide⟩
  | obj (_ :: _), _ => ⟨'{', _, rfl, by decide⟩

/-! ## One element, one member -/

theorem scanItems_close {cs rest : List Char} (h : skipSpace cs = ']' :: rest) (steps : Nat)
    (first : Bool) : scanItems (steps + 1) first cs = (.close, some rest) := by
  simp [scanItems, h]

theorem scanMembers_close {cs rest : List Char} (h : skipSpace cs = '}' :: rest) (steps : Nat)
    (first : Bool) : scanMembers (steps + 1) first cs = (.close, some rest) := by
  simp [scanMembers, h]

section Line

variable {depth steps : Nat} {value : Json} {tail : List Char} {after : Option (List Char)}

/-- The first element of an array, on a line of its own. -/
theorem scanItems_first {items : Items} (hfree : value.NumberFree)
    (hvalue : scanValue steps (prettyOnto depth value tail) = (value.outline, some tail))
    (hitems : scanItems steps false tail = (items, after)) :
    scanItems (steps + 1) true (newLine depth (prettyOnto depth value tail))
      = (.item value.outline items, after) := by
  obtain ⟨c, cs, htext, hspace, hc⟩ := prettyOnto_head depth tail value hfree
  have hskip : skipSpace (newLine depth (c :: cs)) = c :: cs := by
    rw [skipSpace_newLine, skipSpace_cons hspace]
  rw [htext] at hvalue ⊢
  unfold scanItems
  simp [hskip, hvalue, hitems, hc]

/-- An element behind a comma. -/
theorem scanItems_next {items : Items} (hfree : value.NumberFree)
    (hvalue : scanValue steps (prettyOnto depth value tail) = (value.outline, some tail))
    (hitems : scanItems steps false tail = (items, after)) :
    scanItems (steps + 1) false (',' :: newLine depth (prettyOnto depth value tail))
      = (.item value.outline items, after) := by
  obtain ⟨c, cs, htext, hspace, hc⟩ := prettyOnto_head depth tail value hfree
  have hskip : skipSpace (newLine depth (c :: cs)) = c :: cs := by
    rw [skipSpace_newLine, skipSpace_cons hspace]
  have hcomma : ∀ ds, skipSpace (',' :: ds) = ',' :: ds := skipSpace_cons (by decide)
  rw [htext] at hvalue ⊢
  unfold scanItems
  simp [hcomma, hskip, hvalue, hitems, hc]

/-- A blank may stand before a value. -/
theorem scanValue_blank (cs : List Char) : scanValue steps (' ' :: cs) = scanValue steps cs := by
  cases steps with
  | zero => rfl
  | succ steps =>
    have hskip : skipSpace (' ' :: cs) = skipSpace cs := rfl
    simp only [scanValue, hskip]

/-- The first member of an object, on a line of its own. -/
theorem scanMembers_first (key : String) {members : Members}
    (hvalue : scanValue steps (prettyOnto depth value tail) = (value.outline, some tail))
    (hmembers : scanMembers steps false tail = (members, after)) :
    scanMembers (steps + 1) true
        (newLine depth (stringOnto key (':' :: ' ' :: prettyOnto depth value tail)))
      = (.member (some key) value.outline members, after) := by
  obtain ⟨pieces, hscan, htext⟩ := scanString_text key (':' :: ' ' :: prettyOnto depth value tail)
  have hskip : ∀ ds, skipSpace (newLine depth ('"' :: ds)) = '"' :: ds := fun ds => by
    rw [skipSpace_newLine, skipSpace_cons (by decide)]
  have hcolon : ∀ ds, skipSpace (':' :: ds) = ':' :: ds := skipSpace_cons (by decide)
  unfold scanMembers
  simp [stringOnto, hskip, hscan, hcolon, htext, scanValue_blank, hvalue, hmembers]

/-- A member behind a comma. -/
theorem scanMembers_next (key : String) {members : Members}
    (hvalue : scanValue steps (prettyOnto depth value tail) = (value.outline, some tail))
    (hmembers : scanMembers steps false tail = (members, after)) :
    scanMembers (steps + 1) false
        (',' :: newLine depth (stringOnto key (':' :: ' ' :: prettyOnto depth value tail)))
      = (.member (some key) value.outline members, after) := by
  obtain ⟨pieces, hscan, htext⟩ := scanString_text key (':' :: ' ' :: prettyOnto depth value tail)
  have hskip : ∀ ds, skipSpace (newLine depth ('"' :: ds)) = '"' :: ds := fun ds => by
    rw [skipSpace_newLine, skipSpace_cons (by decide)]
  have hcomma : ∀ ds, skipSpace (',' :: ds) = ',' :: ds := skipSpace_cons (by decide)
  have hcolon : ∀ ds, skipSpace (':' :: ds) = ':' :: ds := skipSpace_cons (by decide)
  unfold scanMembers
  simp [stringOnto, hcomma, hskip, hscan, hcolon, htext, scanValue_blank, hvalue, hmembers]

end Line

/-! ## The length of a written text -/

theorem length_lt_stringOnto (s : String) (rest : List Char) :
    rest.length < (stringOnto s rest).length := by
  simp only [stringOnto, List.length_append, List.length_cons]
  omega

theorem length_lt_newLine (depth : Nat) (rest : List Char) :
    rest.length < (newLine depth rest).length := by
  simp only [newLine, List.length_append, List.length_cons]
  omega

/-- The line of a member is longer than what is written for its
value. -/
theorem length_lt_memberLine (depth : Nat) (key : String) (text : List Char) :
    text.length < (newLine depth (stringOnto key (':' :: ' ' :: text))).length := by
  have hkey := length_lt_stringOnto key (':' :: ' ' :: text)
  have hline := length_lt_newLine depth (stringOnto key (':' :: ' ' :: text))
  simp only [List.length_cons] at hkey
  omega

mutual

theorem length_lt_prettyOnto (depth : Nat) : ∀ (j : Json), j.NumberFree → ∀ rest : List Char,
    rest.length < (prettyOnto depth j rest).length
  | null, _, _ | bool true, _, _ | bool false, _, _ | arr [], _, _ | obj [], _, _ => by
    simp only [prettyOnto, List.length_cons]
    omega
  | str s, _, rest => length_lt_stringOnto s rest
  | arr (item :: items), h, rest => by
    have hitems := length_lt_prettyItems depth items h.2 rest
    have hitem := length_lt_prettyOnto (depth + 1) item h.1 (prettyItems depth items rest)
    have hline := length_lt_newLine (depth + 1)
      (prettyOnto (depth + 1) item (prettyItems depth items rest))
    simp only [prettyOnto, List.length_cons]
    omega
  | obj ((key, value) :: members), h, rest => by
    have hmembers := length_lt_prettyMembers depth members h.2 rest
    have hvalue := length_lt_prettyOnto (depth + 1) value h.1 (prettyMembers depth members rest)
    have hline := length_lt_memberLine (depth + 1) key
      (prettyOnto (depth + 1) value (prettyMembers depth members rest))
    simp only [prettyOnto, List.length_cons]
    omega

theorem length_lt_prettyItems (depth : Nat) : ∀ (items : List Json), ItemsNumberFree items →
    ∀ rest : List Char, rest.length < (prettyItems depth items rest).length
  | [], _, rest => by
    have hline := length_lt_newLine depth (']' :: rest)
    simp only [prettyItems, List.length_cons] at hline ⊢
    omega
  | item :: items, h, rest => by
    have hitems := length_lt_prettyItems depth items h.2 rest
    have hitem := length_lt_prettyOnto (depth + 1) item h.1 (prettyItems depth items rest)
    have hline := length_lt_newLine (depth + 1)
      (prettyOnto (depth + 1) item (prettyItems depth items rest))
    simp only [prettyItems, List.length_cons]
    omega

theorem length_lt_prettyMembers (depth : Nat) : ∀ (members : List (String × Json)),
    MembersNumberFree members → ∀ rest : List Char,
    rest.length < (prettyMembers depth members rest).length
  | [], _, rest => by
    have hline := length_lt_newLine depth ('}' :: rest)
    simp only [prettyMembers, List.length_cons] at hline ⊢
    omega
  | (key, value) :: members, h, rest => by
    have hmembers := length_lt_prettyMembers depth members h.2 rest
    have hvalue := length_lt_prettyOnto (depth + 1) value h.1 (prettyMembers depth members rest)
    have hline := length_lt_memberLine (depth + 1) key
      (prettyOnto (depth + 1) value (prettyMembers depth members rest))
    simp only [prettyMembers, List.length_cons]
    omega

end

/-! ## Written values -/

theorem scanValue_str (s : String) (rest : List Char) (steps : Nat) :
    scanValue (steps + 1) (stringOnto s rest) = (.str (some s), some rest) := by
  obtain ⟨pieces, hscan, htext⟩ := scanString_text s rest
  show stringValue (s.toList.flatMap escapeChar ++ '"' :: rest) = _
  simp only [stringValue, hscan, htext]

mutual

/-- A written value is scanned as its outline, up to what follows it. -/
theorem scanValue_prettyOnto (depth : Nat) : ∀ (j : Json), j.NumberFree →
    ∀ (rest : List Char) (steps : Nat), 2 * (prettyOnto depth j rest).length < steps →
    scanValue steps (prettyOnto depth j rest) = (j.outline, some rest)
  | null, _, _, steps + 1, _ => rfl
  | bool true, _, _, steps + 1, _ => rfl
  | bool false, _, _, steps + 1, _ => rfl
  | str s, _, rest, steps + 1, _ => scanValue_str s rest steps
  | arr [], _, rest, steps + 2, _ => rfl
  | obj [], _, rest, steps + 2, _ => rfl
  | arr (item :: items), h, rest, steps + 2, hsteps => by
    -- Two steps are taken, one for the array and one for its first element, and at least two
    -- characters are gone.
    have htail := length_lt_prettyOnto (depth + 1) item h.1 (prettyItems depth items rest)
    have hline := length_lt_newLine (depth + 1)
      (prettyOnto (depth + 1) item (prettyItems depth items rest))
    simp only [prettyOnto, List.length_cons] at hsteps
    have hitem := scanValue_prettyOnto (depth + 1) item h.1 (prettyItems depth items rest) steps
      (by omega)
    have hitems := scanItems_prettyItems depth items h.2 rest steps (by omega)
    have hscan := scanItems_first h.1 hitem hitems
    simp only [prettyOnto, scanValue, skipSpace_cons (show isSpace '[' = false from rfl), hscan]
    rfl
  | obj ((key, value) :: members), h, rest, steps + 2, hsteps => by
    have htail := length_lt_prettyOnto (depth + 1) value h.1 (prettyMembers depth members rest)
    have hline := length_lt_memberLine (depth + 1) key
      (prettyOnto (depth + 1) value (prettyMembers depth members rest))
    simp only [prettyOnto, List.length_cons] at hsteps
    have hvalue := scanValue_prettyOnto (depth + 1) value h.1 (prettyMembers depth members rest)
      steps (by omega)
    have hmembers := scanMembers_prettyMembers depth members h.2 rest steps (by omega)
    have hscan := scanMembers_first key hvalue hmembers
    simp only [prettyOnto, scanValue, skipSpace_cons (show isSpace '{' = false from rfl), hscan]
    rfl

theorem scanItems_prettyItems (depth : Nat) : ∀ (items : List Json), ItemsNumberFree items →
    ∀ (rest : List Char) (steps : Nat), 2 * (prettyItems depth items rest).length < steps →
    scanItems steps false (prettyItems depth items rest) = (itemsOutline items, some rest)
  | [], _, rest, steps + 1, _ => by
    have hskip : skipSpace (newLine depth (']' :: rest)) = ']' :: rest := by
      rw [skipSpace_newLine, skipSpace_cons (by decide)]
    exact scanItems_close hskip steps false
  | item :: items, h, rest, steps + 1, hsteps => by
    have htail := length_lt_prettyOnto (depth + 1) item h.1 (prettyItems depth items rest)
    have hline := length_lt_newLine (depth + 1)
      (prettyOnto (depth + 1) item (prettyItems depth items rest))
    simp only [prettyItems, List.length_cons] at hsteps
    have hitem := scanValue_prettyOnto (depth + 1) item h.1 (prettyItems depth items rest) steps
      (by omega)
    have hitems := scanItems_prettyItems depth items h.2 rest steps (by omega)
    exact scanItems_next h.1 hitem hitems

theorem scanMembers_prettyMembers (depth : Nat) : ∀ (members : List (String × Json)),
    MembersNumberFree members → ∀ (rest : List Char) (steps : Nat),
    2 * (prettyMembers depth members rest).length < steps →
    scanMembers steps false (prettyMembers depth members rest)
      = (membersOutline members, some rest)
  | [], _, rest, steps + 1, _ => by
    have hskip : skipSpace (newLine depth ('}' :: rest)) = '}' :: rest := by
      rw [skipSpace_newLine, skipSpace_cons (by decide)]
    exact scanMembers_close hskip steps false
  | (key, value) :: members, h, rest, steps + 1, hsteps => by
    have htail := length_lt_prettyOnto (depth + 1) value h.1 (prettyMembers depth members rest)
    have hline := length_lt_memberLine (depth + 1) key
      (prettyOnto (depth + 1) value (prettyMembers depth members rest))
    simp only [prettyMembers, List.length_cons] at hsteps
    have hvalue := scanValue_prettyOnto (depth + 1) value h.1 (prettyMembers depth members rest)
      steps (by omega)
    have hmembers := scanMembers_prettyMembers depth members h.2 rest steps (by omega)
    exact scanMembers_next key hvalue hmembers

end

/-- What is written for a value is JSON throughout, with the outline of
the value. -/
theorem ofText_pretty {j : Json} (h : j.NumberFree) :
    Document.ofText j.pretty = ⟨j.outline, true⟩ := by
  have hscan := scanValue_prettyOnto 0 j h [] (2 * (prettyOnto 0 j []).length + 2) (by omega)
  simp only [Document.ofText, pretty, String.toList_ofList, hscan]
  rfl

end OverrideCheck.Json
