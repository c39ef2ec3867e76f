import OverrideCheck.Json.Decoder
import OverrideCheck.Json.Value

/-!
# `OverrideCheck.Proofs.Json.Nesting`: how deep containers are nested

The bound on nesting is a bound on texts: as many containers may be
open at one place. `textNesting` counts them in a text, character by
character, and knows nothing about values. What is written for a value
nests as deep as the value does (`textNesting_pretty`), so for written
texts the count can be done on values.

A reader counts on the outline of the text. The outline of a written
text is `Json.outline` (`Proofs/Json/Scanning.lean`). Reading ahead
refuses a written part exactly if it nests deeper than the room that is
left (`settle_outline`), and of no text anything is read ahead that
nests deeper (`nesting_le_of_settle`).

What is written is always a value without numbers here. There are none
in an assembly, and the numeral of a value may hold any characters.
-/

set_option autoImplicit false

namespace OverrideCheck.Json

/-! ## Nesting of texts -/

/-- The most containers that are open at one place of a text, if it
starts inside so many of them, between quotes or not. Brackets between
quotes open and close nothing. -/
def deepest : Bool → Nat → List Char → Nat
  | _, opened, [] => opened
  | true, opened, '\\' :: _ :: rest => deepest true opened rest
  | quoted, opened, c :: rest =>
    if c = '"' then deepest (!quoted) opened rest
    else if quoted then deepest true opened rest
    else if c = '[' || c = '{' then deepest false (opened + 1) rest
    else if c = ']' || c = '}' then max opened (deepest false (opened - 1) rest)
    else deepest false opened rest

/-- How deep containers are nested in a text. -/
def textNesting (text : String) : Nat := deepest false 0 text.toList

theorem le_deepest (quoted : Bool) (opened : Nat) (cs : List Char) :
    opened ≤ deepest quoted opened cs := by
  fun_induction deepest quoted opened cs <;> omega

/-- Outside of quotes only these characters count. -/
def isMarker (c : Char) : Bool := c = '"' || (c = '[' || c = '{') || (c = ']' || c = '}')

/-- Other characters open and close nothing. -/
theorem deepest_append (word : List Char) (h : word.any isMarker = false) (opened : Nat)
    (rest : List Char) : deepest false opened (word ++ rest) = deepest false opened rest := by
  induction word with
  | nil => rfl
  | cons c word ih =>
    rw [List.any_cons, Bool.or_eq_false_iff] at h
    obtain ⟨hc, hword⟩ := h
    rw [isMarker, Bool.or_eq_false_iff, Bool.or_eq_false_iff, decide_eq_false_iff_not] at hc
    obtain ⟨⟨hquote, hopen⟩, hclose⟩ := hc
    rw [List.cons_append, deepest, if_neg hquote, hopen, hclose]
    · exact ih hword
    · simp

theorem deepest_openArray (opened : Nat) (rest : List Char) :
    deepest false opened ('[' :: rest) = deepest false (opened + 1) rest :=
  rfl

theorem deepest_openObject (opened : Nat) (rest : List Char) :
    deepest false opened ('{' :: rest) = deepest false (opened + 1) rest :=
  rfl

theorem deepest_closeArray (opened : Nat) (rest : List Char) :
    deepest false (opened + 1) (']' :: rest) = max (opened + 1) (deepest false opened rest) :=
  rfl

theorem deepest_closeObject (opened : Nat) (rest : List Char) :
    deepest false (opened + 1) ('}' :: rest) = max (opened + 1) (deepest false opened rest) :=
  rfl

theorem deepest_comma (opened : Nat) (rest : List Char) :
    deepest false opened (',' :: rest) = deepest false opened rest :=
  deepest_append [','] rfl opened rest

theorem deepest_colon (opened : Nat) (rest : List Char) :
    deepest false opened (':' :: ' ' :: rest) = deepest false opened rest :=
  deepest_append [':', ' '] rfl opened rest

/-! ## Nesting of values -/

mutual

/-- How deep containers are nested in a value. -/
def nesting : Json → Nat
  | arr items => itemsNesting items + 1
  | obj members => membersNesting members + 1
  | _ => 0

/-- How deep containers are nested in the elements of an array. -/
def itemsNesting : List Json → Nat
  | [] => 0
  | item :: items => max item.nesting (itemsNesting items)

/-- How deep containers are nested in the members of an object. -/
def membersNesting : List (String × Json) → Nat
  | [] => 0
  | (_, value) :: members => max value.nesting (membersNesting members)

end

mutual

/-- No number occurs in the value. -/
def NumberFree : Json → Prop
  | num _ => False
  | arr items => ItemsNumberFree items
  | obj members => MembersNumberFree members
  | _ => True

/-- No number occurs in the elements of an array. -/
def ItemsNumberFree : List Json → Prop
  | [] => True
  | item :: items => item.NumberFree ∧ ItemsNumberFree items

/-- No number occurs in the members of an object. -/
def MembersNumberFree : List (String × Json) → Prop
  | [] => True
  | (_, value) :: members => value.NumberFree ∧ MembersNumberFree members

end

@[simp]
theorem membersNesting_append (ms ns : List (String × Json)) :
    membersNesting (ms ++ ns) = max (membersNesting ms) (membersNesting ns) := by
  induction ms with
  | nil => simp [membersNesting]
  | cons m ms ih => simp [membersNesting, ih, Nat.max_assoc]

theorem membersNesting_le_iff {members : List (String × Json)} {n : Nat} :
    membersNesting members ≤ n ↔ ∀ m ∈ members, m.2.nesting ≤ n := by
  induction members with
  | nil => simp [membersNesting]
  | cons m members ih => rw [membersNesting, Nat.max_le, ih, List.forall_mem_cons]

@[simp]
theorem membersNumberFree_append (ms ns : List (String × Json)) :
    MembersNumberFree (ms ++ ns) ↔ MembersNumberFree ms ∧ MembersNumberFree ns := by
  induction ms with
  | nil => simp [MembersNumberFree]
  | cons m ms ih => simp [MembersNumberFree, ih, and_assoc]

/-! ## Written values -/

/-- The three forms of a character between quotes. -/
theorem escapeChar_cases (c : Char) :
    (∃ e, escapeChar c = ['\\', e] ∧ escaped? e = some c) ∨
    (escapeChar c = controlEscape c ∧ c.toNat < 0x20) ∨
    (escapeChar c = [c] ∧ c ≠ '"' ∧ c ≠ '\\' ∧ 0x20 ≤ c.toNat) := by
  by_cases hquote : c = '"'
  · subst hquote
    exact .inl ⟨'"', rfl, rfl⟩
  by_cases hslash : c = '\\'
  · subst hslash
    exact .inl ⟨'\\', rfl, rfl⟩
  by_cases hb : c = '\x08'
  · subst hb
    exact .inl ⟨'b', rfl, rfl⟩
  by_cases hf : c = '\x0c'
  · subst hf
    exact .inl ⟨'f', rfl, rfl⟩
  by_cases hn : c = '\n'
  · subst hn
    exact .inl ⟨'n', rfl, rfl⟩
  by_cases hr : c = '\r'
  · subst hr
    exact .inl ⟨'r', rfl, rfl⟩
  by_cases ht : c = '\t'
  · subst ht
    exact .inl ⟨'t', rfl, rfl⟩
  rw [escapeChar, if_neg hquote, if_neg hslash, if_neg hb, if_neg hf, if_neg hn, if_neg hr,
    if_neg ht]
  by_cases hcontrol : c.toNat < 0x20
  · rw [if_pos hcontrol]
    exact .inr (.inl ⟨rfl, hcontrol⟩)
  · rw [if_neg hcontrol]
    exact .inr (.inr ⟨rfl, hquote, hslash, Nat.le_of_not_lt hcontrol⟩)

/-- Between quotes only the quote and the backslash count. -/
theorem deepest_quoted_cons {c : Char} (hquote : c ≠ '"') (hslash : c ≠ '\\') (opened : Nat)
    (rest : List Char) : deepest true opened (c :: rest) = deepest true opened rest := by
  rw [deepest, if_neg hquote, if_pos rfl]
  exact fun _ _ _ h _ => hslash h

theorem digitChar_plain : ∀ n < 16, Nat.digitChar n ≠ '"' ∧ Nat.digitChar n ≠ '\\' := by
  decide

/-- An escaped character neither ends the string nor opens anything. -/
theorem deepest_escapeChar (opened : Nat) (c : Char) (rest : List Char) :
    deepest true opened (escapeChar c ++ rest) = deepest true opened rest := by
  obtain ⟨e, he, -⟩ | ⟨he, hc⟩ | ⟨he, hquote, hslash, -⟩ := escapeChar_cases c
  · simp [he, deepest]
  · have hhigh := digitChar_plain (c.toNat / 16) (by omega)
    have hlow := digitChar_plain (c.toNat % 16) (by omega)
    rw [he]
    show deepest true opened ('0' :: '0' :: _ :: _ :: rest) = _
    rw [deepest_quoted_cons (by decide) (by decide), deepest_quoted_cons (by decide) (by decide),
      deepest_quoted_cons hhigh.1 hhigh.2, deepest_quoted_cons hlow.1 hlow.2]
  · rw [he]
    exact deepest_quoted_cons hquote hslash opened rest

/-- A string opens no container. -/
theorem deepest_stringOnto (opened : Nat) (s : String) (rest : List Char) :
    deepest false opened (stringOnto s rest) = deepest false opened rest := by
  have chars : ∀ cs : List Char, deepest true opened (cs.flatMap escapeChar ++ '"' :: rest)
      = deepest false opened rest := by
    intro cs
    induction cs with
    | nil => simp [deepest]
    | cons c cs ih => simp [deepest_escapeChar, ih]
  show deepest true opened (s.toList.flatMap escapeChar ++ '"' :: rest) = _
  exact chars s.toList

/-- Blanks open no container. -/
theorem deepest_newLine (opened depth : Nat) (rest : List Char) :
    deepest false opened (newLine depth rest) = deepest false opened rest := by
  have hblank : ('\n' :: List.replicate (2 * depth) ' ').any isMarker = false := by
    simp [isMarker, List.any_replicate]
  exact deepest_append _ hblank opened rest

mutual

/-- A written value opens as many containers as are nested in it. -/
theorem deepest_prettyOnto (opened depth : Nat) : ∀ (j : Json), j.NumberFree → ∀ rest : List Char,
    deepest false opened (prettyOnto depth j rest)
      = max (opened + j.nesting) (deepest false opened rest)
  | null, _, rest => by
    have hword := deepest_append ['n', 'u', 'l', 'l'] rfl opened rest
    have := le_deepest false opened rest
    show deepest false opened (['n', 'u', 'l', 'l'] ++ rest) = _
    simp only [hword, nesting]
    omega
  | bool true, _, rest => by
    have hword := deepest_append ['t', 'r', 'u', 'e'] rfl opened rest
    have := le_deepest false opened rest
    show deepest false opened (['t', 'r', 'u', 'e'] ++ rest) = _
    simp only [hword, nesting]
    omega
  | bool false, _, rest => by
    have hword := deepest_append ['f', 'a', 'l', 's', 'e'] rfl opened rest
    have := le_deepest false opened rest
    show deepest false opened (['f', 'a', 'l', 's', 'e'] ++ rest) = _
    simp only [hword, nesting]
    omega
  | str s, _, rest => by
    have := le_deepest false opened rest
    simp only [prettyOnto, deepest_stringOnto, nesting]
    omega
  | arr [], _, rest => by
    simp only [prettyOnto, deepest_openArray, deepest_closeArray, nesting, itemsNesting]
  | arr (item :: items), h, rest => by
    have hitem := deepest_prettyOnto (opened + 1) (depth + 1) item h.1
    have hitems := deepest_prettyItems opened depth items h.2 rest
    simp only [prettyOnto, deepest_openArray, deepest_newLine, hitem, hitems, nesting,
      itemsNesting]
    omega
  | obj [], _, rest => by
    simp only [prettyOnto, deepest_openObject, deepest_closeObject, nesting, membersNesting]
  | obj ((key, value) :: members), h, rest => by
    have hvalue := deepest_prettyOnto (opened + 1) (depth + 1) value h.1
    have hmembers := deepest_prettyMembers opened depth members h.2 rest
    simp only [prettyOnto, deepest_openObject, deepest_newLine, deepest_stringOnto, deepest_colon,
      hvalue, hmembers, nesting, membersNesting]
    omega

theorem deepest_prettyItems (opened depth : Nat) : ∀ (items : List Json),
    ItemsNumberFree items → ∀ rest : List Char,
    deepest false (opened + 1) (prettyItems depth items rest)
      = max (opened + 1 + itemsNesting items) (deepest false opened rest)
  | [], _, rest => by
    simp only [prettyItems, deepest_newLine, deepest_closeArray, itemsNesting, Nat.add_zero]
  | item :: items, h, rest => by
    have hitem := deepest_prettyOnto (opened + 1) (depth + 1) item h.1
    have hitems := deepest_prettyItems opened depth items h.2 rest
    simp only [prettyItems, deepest_comma, deepest_newLine, hitem, hitems, itemsNesting]
    omega

theorem deepest_prettyMembers (opened depth : Nat) : ∀ (members : List (String × Json)),
    MembersNumberFree members → ∀ rest : List Char,
    deepest false (opened + 1) (prettyMembers depth members rest)
      = max (opened + 1 + membersNesting members) (deepest false opened rest)
  | [], _, rest => by
    simp only [prettyMembers, deepest_newLine, deepest_closeObject, membersNesting, Nat.add_zero]
  | (key, value) :: members, h, rest => by
    have hvalue := deepest_prettyOnto (opened + 1) (depth + 1) value h.1
    have hmembers := deepest_prettyMembers opened depth members h.2 rest
    simp only [prettyMembers, deepest_comma, deepest_newLine, deepest_stringOnto, deepest_colon,
      hvalue, hmembers, membersNesting]
    omega

end

/-- What is written for a value nests as deep as the value. -/
theorem textNesting_pretty {j : Json} (h : j.NumberFree) : textNesting j.pretty = j.nesting := by
  have hdeep := deepest_prettyOnto 0 0 j h []
  simpa [textNesting, pretty, deepest] using hdeep

/-! ## Outlines -/

mutual

/-- The outline of what is written for a value. -/
def outline : Json → Outline
  | null => .null
  | bool b => .bool b
  | num n => .num n
  | str s => .str (some s)
  | arr items => .arr (itemsOutline items)
  | obj members => .obj (membersOutline members)

/-- The outline of the elements of an array. -/
def itemsOutline : List Json → Items
  | [] => .close
  | item :: items => .item item.outline (itemsOutline items)

/-- The outline of the members of an object. -/
def membersOutline : List (String × Json) → Members
  | [] => .close
  | (key, value) :: members => .member (some key) value.outline (membersOutline members)

end

mutual

/-- How deep containers are nested in the value at one place. -/
def Outline.nesting : Outline → Nat
  | .arr items => items.nesting + 1
  | .obj members => members.nesting + 1
  | _ => 0

/-- How deep containers are nested in the rest of an array. -/
def Items.nesting : Items → Nat
  | .item value rest => max value.nesting rest.nesting
  | _ => 0

/-- How deep containers are nested in the rest of an object. -/
def Members.nesting : Members → Nat
  | .member _ value rest => max value.nesting rest.nesting
  | _ => 0

end

/-! ## Reading ahead -/

/-- A reading in two steps succeeds if both steps do. -/
theorem bind_eq_ok {ε α β : Type} {x : Except ε α} {f : α → Except ε β} {b : β} :
    x >>= f = .ok b ↔ ∃ a, x = .ok a ∧ f a = .ok b := by
  cases x <;> simp [bind, Except.bind]

theorem map_eq_ok {ε α β : Type} {x : Except ε α} {f : α → β} {b : β} :
    x.map f = .ok b ↔ ∃ a, x = .ok a ∧ f a = b := by
  cases x <;> simp [Except.map]

mutual

/-- A written value is read ahead exactly if there is room for it. -/
theorem settle_outline : ∀ (j : Json), j.NumberFree → ∀ room : Nat,
    j.outline.settle room = if j.nesting ≤ room then .ok () else .error .malformed
  | null, _, _ | bool _, _, _ | str _, _, _ => by simp [outline, Outline.settle, nesting]
  | arr items, h, 0 => by simp [outline, Outline.settle, nesting]
  | arr items, h, room + 1 => by
    simp [outline, Outline.settle, nesting, settle_itemsOutline items h room]
  | obj members, h, 0 => by simp [outline, Outline.settle, nesting]
  | obj members, h, room + 1 => by
    simp [outline, Outline.settle, nesting, settle_membersOutline members h room]

theorem settle_itemsOutline : ∀ (items : List Json), ItemsNumberFree items → ∀ room : Nat,
    (itemsOutline items).settle room
      = if itemsNesting items ≤ room then .ok () else .error .malformed
  | [], _, _ => by simp [itemsOutline, Items.settle, itemsNesting]
  | item :: items, h, room => by
    have hitem := settle_outline item h.1 room
    have hitems := settle_itemsOutline items h.2 room
    simp only [itemsOutline, Items.settle, itemsNesting, hitem, hitems, Nat.max_le]
    by_cases hfits : item.nesting ≤ room
    · simp [hfits, bind, Except.bind]
    · simp [hfits, bind, Except.bind]

theorem settle_membersOutline : ∀ (members : List (String × Json)), MembersNumberFree members →
    ∀ room : Nat, (membersOutline members).settle room
      = if membersNesting members ≤ room then .ok () else .error .malformed
  | [], _, _ => by simp [membersOutline, Members.settle, membersNesting]
  | (_, value) :: members, h, room => by
    have hvalue := settle_outline value h.1 room
    have hmembers := settle_membersOutline members h.2 room
    simp only [membersOutline, Members.settle, membersNesting, hvalue, hmembers, Nat.max_le]
    by_cases hfits : value.nesting ≤ room
    · simp [hfits, bind, Except.bind]
    · simp [hfits, bind, Except.bind]

end

mutual

/-- Nothing is read ahead that nests deeper than there is room. -/
theorem nesting_le_of_settle : ∀ (o : Outline) (room : Nat), o.settle room = .ok () →
    o.nesting ≤ room
  | .null, _, _ | .bool _, _, _ | .num _, _, _ | .str _, _, _ | .broken _, _, _ => Nat.zero_le _
  | .arr items, room + 1, h => Nat.succ_le_succ (items_nesting_le_of_settle items room h)
  | .obj members, room + 1, h => Nat.succ_le_succ (members_nesting_le_of_settle members room h)

theorem items_nesting_le_of_settle : ∀ (items : Items) (room : Nat), items.settle room = .ok () →
    items.nesting ≤ room
  | .close, _, _ | .stop _ _, _, _ => Nat.zero_le _
  | .item value rest, room, h => by
    obtain ⟨_, hvalue, hrest⟩ := bind_eq_ok.1 h
    exact Nat.max_le.2 ⟨nesting_le_of_settle value room hvalue,
      items_nesting_le_of_settle rest room hrest⟩

theorem members_nesting_le_of_settle : ∀ (members : Members) (room : Nat),
    members.settle room = .ok () → members.nesting ≤ room
  | .close, _, _ | .stop _ _, _, _ => Nat.zero_le _
  | .member (some _) value rest, room, h => by
    obtain ⟨_, hvalue, hrest⟩ := bind_eq_ok.1 h
    exact Nat.max_le.2 ⟨nesting_le_of_settle value room hvalue,
      members_nesting_le_of_settle rest room hrest⟩

end

end OverrideCheck.Json
