import OverrideCheck.Proofs.Json.Grammar

/-!
# `OverrideCheck.Proofs.Json.Derivation`: which texts are taken apart

A text is taken apart to its end exactly if the grammar derives it, and
the outline is the one that it derives (`ofText_eq_iff`). So each text
spells at most one value, and a text is read as something exactly if it
spells a value that is read as this (`decode_eq_ok_iff`).

Towards the scanner the induction is on the outline and carries a bound
on the text that is left, because the scanner counts its steps down
(`scanValue_of_spells`). Away from it the induction is on the steps: what
was scanned is put together again (`derived`). Both rest on what one
step does to an element or a member (`scanItems_element`,
`scanItems_cases` and their like for members).
-/

set_option autoImplicit false

namespace OverrideCheck.Json

/-! ## Where values start -/

/-- A number starts with a digit or a minus. -/
theorem SpellsNumeral.head {cs : List Char} {n : Numeral} (h : SpellsNumeral cs n) :
    ∃ c tail, cs = c :: tail ∧ (c = '-' || isDigit c) = true := by
  obtain @⟨negative, whole, _, _, _, _, hdigits, -, -, -⟩ := h
  cases negative with
  | true => exact ⟨'-', _, rfl, rfl⟩
  | false =>
    obtain ⟨d, whole, rfl⟩ := List.exists_cons_of_ne_nil hdigits.1
    exact ⟨d, _, rfl, by simp [hdigits.2 d (by simp)]⟩

/-- What starts a number starts nothing else. -/
theorem ne_of_numeral {c : Char} (hc : (c = '-' || isDigit c) = true) (d : Char)
    (hd : (d = '-' || isDigit d) = false) : c ≠ d := by
  rintro rfl
  rw [hc] at hd
  contradiction

theorem isSpace_of_numeral {c : Char} (hc : (c = '-' || isDigit c) = true) : isSpace c = false := by
  simp [isSpace, ne_of_numeral hc ' ' rfl, ne_of_numeral hc '\n' rfl, ne_of_numeral hc '\t' rfl,
    ne_of_numeral hc '\r' rfl]

theorem scanValue_number {c : Char} (hc : (c = '-' || isDigit c) = true) (cs : List Char)
    (steps : Nat) : scanValue (steps + 1) (c :: cs) = numberValue (c :: cs) := by
  have hne := ne_of_numeral hc
  rw [scanValue, skipSpace_cons (isSpace_of_numeral hc)]
  simp [hne '"' rfl, hne '[' rfl, hne '{' rfl, hne 'n' rfl, hne 't' rfl, hne 'f' rfl, hc]

/-- A value starts with a character that is no blank and closes no
array. -/
theorem SpellsValue.head {cs : List Char} {o : Outline} (h : SpellsValue cs o) :
    ∃ c tail, cs = c :: tail ∧ isSpace c = false ∧ c ≠ ']' := by
  cases h with
  | num h =>
    obtain ⟨c, tail, rfl, hc⟩ := h.head
    exact ⟨c, tail, rfl, isSpace_of_numeral hc, ne_of_numeral hc ']' rfl⟩
  | _ => exact ⟨_, _, rfl, by decide⟩

theorem scanValue_append {blank : List Char} (h : Blank blank) (cs : List Char) (steps : Nat) :
    scanValue steps (blank ++ cs) = scanValue steps cs := by
  cases steps with
  | zero => rfl
  | succ steps => simp only [scanValue, skipSpace_append h]

theorem scanValue_skipSpace (steps : Nat) (cs : List Char) :
    scanValue steps (skipSpace cs) = scanValue steps cs := by
  obtain ⟨blank, hblank, hcs⟩ := exists_blank cs
  conv => rhs; rw [hcs]
  rw [scanValue_append hblank]

/-! ## One element, one member -/

/-- What stands before an element or a member: a comma, except before the
first one. -/
inductive Lead : Bool → List Char → Prop where
  | first : Lead true []
  | next {blank : List Char} (h : Blank blank) : Lead false (blank ++ [','])

section Step

variable {steps : Nat} {first : Bool} {cs rest : List Char}

/-- What was skipped before a token. -/
theorem exists_blank_of_skipSpace {c : Char} {tail : List Char} (h : skipSpace cs = c :: tail) :
    ∃ blank, Blank blank ∧ cs = blank ++ c :: tail := by
  obtain ⟨blank, hblank, hcs⟩ := exists_blank cs
  exact ⟨blank, hblank, h ▸ hcs⟩

/-- After a comma the elements go on as they start. -/
theorem scanItems_comma {blank text tail : List Char} {c : Char} (hblank : Blank blank)
    (htext : skipSpace text = c :: tail) (hc : c ≠ ']') :
    scanItems (steps + 1) false (blank ++ ',' :: text) = scanItems (steps + 1) true text := by
  have hcomma := skipSpace_blank hblank (show isSpace ',' = false from rfl) text
  unfold scanItems
  simp [hcomma, htext, hc]

theorem scanItems_element {lead before tail : List Char} {value : Outline} {items : Items}
    (hlead : Lead first lead) (hbefore : Blank before) (hspells : SpellsValue cs value)
    (hvalue : scanValue steps (cs ++ tail) = (value, some tail))
    (hitems : scanItems steps false tail = (items, some rest)) :
    scanItems (steps + 1) first (lead ++ (before ++ (cs ++ tail)))
      = (.item value items, some rest) := by
  obtain ⟨c, cs, rfl, hspace, hc⟩ := hspells.head
  have htext : skipSpace (before ++ (c :: (cs ++ tail))) = c :: (cs ++ tail) :=
    skipSpace_blank hbefore hspace _
  rw [List.cons_append] at hvalue ⊢
  have hfirst : scanItems (steps + 1) true (before ++ c :: (cs ++ tail))
      = (.item value items, some rest) := by
    unfold scanItems
    simp [htext, hc, hvalue, hitems]
  cases hlead with
  | first => exact hfirst
  | next hblank =>
    rw [List.append_assoc, List.singleton_append, scanItems_comma hblank htext hc, hfirst]

theorem scanItems_first_cases {items : Items}
    (h : scanItems (steps + 1) true cs = (items, some rest)) :
    (items = .close ∧ ∃ blank, Blank blank ∧ cs = blank ++ ']' :: rest) ∨
    ∃ value tail others, scanValue steps cs = (value, some tail)
      ∧ scanItems steps false tail = (others, some rest) ∧ items = .item value others := by
  revert h
  generalize hn : steps + 1 = n
  generalize hfirst : true = first
  fun_cases scanItems n first cs <;> intro h
  case case3 htext =>
    cases h
    exact .inl ⟨rfl, exists_blank_of_skipSpace htext⟩
  case case4 element _ _ =>
    cases hn
    simp only [element, scanValue_skipSpace] at h
    split at h
    · simp at h
    next value tail hvalue =>
      obtain ⟨rfl, hothers⟩ := Prod.mk.inj h
      exact .inr ⟨value, tail, _, hvalue, Prod.ext rfl hothers, rfl⟩
  all_goals simp at h hfirst

theorem scanItems_next_cases {items : Items}
    (h : scanItems (steps + 1) false cs = (items, some rest)) :
    (items = .close ∧ ∃ blank, Blank blank ∧ cs = blank ++ ']' :: rest) ∨
    ∃ blank text c tail, Blank blank ∧ cs = blank ++ ',' :: text
      ∧ skipSpace text = c :: tail ∧ c ≠ ']' := by
  revert h
  generalize hfirst : false = first
  generalize steps + 1 = n
  fun_cases scanItems n first cs <;> intro h
  case case3 htext =>
    cases h
    exact .inl ⟨rfl, exists_blank_of_skipSpace htext⟩
  case case7 text hopen hcut hcomma =>
    obtain ⟨blank, hblank, rfl⟩ := exists_blank_of_skipSpace hcomma
    obtain ⟨c, tail, htext⟩ := List.exists_cons_of_ne_nil hopen
    refine .inr ⟨blank, text, c, tail, hblank, rfl, htext, ?_⟩
    rintro rfl
    exact hcut tail htext
  all_goals simp at h hfirst

theorem scanItems_cases {items : Items} (h : scanItems (steps + 1) first cs = (items, some rest)) :
    (items = .close ∧ ∃ blank, Blank blank ∧ cs = blank ++ ']' :: rest) ∨
    ∃ lead text value tail others, Lead first lead ∧ cs = lead ++ text
      ∧ scanValue steps text = (value, some tail) ∧ scanItems steps false tail = (others, some rest)
      ∧ items = .item value others := by
  cases first with
  | true =>
    obtain hclose | ⟨value, tail, others, hscan⟩ := scanItems_first_cases h
    · exact .inl hclose
    · exact .inr ⟨[], cs, value, tail, others, .first, rfl, hscan⟩
  | false =>
    obtain hclose | ⟨blank, text, c, behind, hblank, rfl, htext, hc⟩ := scanItems_next_cases h
    · exact .inl hclose
    · rw [scanItems_comma hblank htext hc] at h
      obtain ⟨-, _, hgap, rfl⟩ | ⟨value, tail, others, hscan⟩ := scanItems_first_cases h
      · -- An array does not end right behind a comma.
        rw [skipSpace_blank hgap (by decide)] at htext
        exact absurd (List.cons.inj htext).1.symm hc
      · exact .inr ⟨blank ++ [','], text, value, tail, others, .next hblank, by simp, hscan⟩

/-- After a comma the members go on as they start, but for how a key that
breaks off is held. -/
theorem scanMembers_comma {blank text tail : List Char} {members : Members} (hblank : Blank blank)
    (htext : skipSpace text = '"' :: tail) :
    scanMembers (steps + 1) false (blank ++ ',' :: text) = (members, some rest)
      ↔ scanMembers (steps + 1) true text = (members, some rest) := by
  have hcomma := skipSpace_blank hblank (show isSpace ',' = false from rfl) text
  unfold scanMembers
  simp only [hcomma, htext]
  rcases scanString tail with ⟨pieces, c | behind⟩
  · simp
  · -- Behind a key that is complete both go on alike.
    rfl

theorem scanMembers_member {lead ks text tail : List Char} {key : Option String} {value : Outline}
    {members : Members} (hlead : Lead first lead) (hkey : SpellsKey ks key)
    (hvalue : scanValue steps text = (value, some tail))
    (hmembers : scanMembers steps false tail = (members, some rest)) :
    scanMembers (steps + 1) first (lead ++ (ks ++ ':' :: text))
      = (.member key value members, some rest) := by
  obtain @⟨before, cs, gap, pieces, hbefore, hstring, hgap⟩ := hkey
  have hquote : skipSpace (before ++ '"' :: (cs ++ '"' :: gap) ++ ':' :: text)
      = '"' :: (cs ++ '"' :: (gap ++ ':' :: text)) := by
    rw [List.append_assoc, skipSpace_append hbefore]
    simp [skipSpace_cons, isSpace]
  have hscan := scanString_of_spells hstring (gap ++ ':' :: text)
  have hcolon : skipSpace (gap ++ ':' :: text) = ':' :: text :=
    skipSpace_blank hgap (by decide) text
  have hfirst : scanMembers (steps + 1) true (before ++ '"' :: (cs ++ '"' :: gap) ++ ':' :: text)
      = (.member (pieceText pieces) value members, some rest) := by
    unfold scanMembers
    rw [hquote]
    simp [hscan, hcolon, hvalue, hmembers]
  cases hlead with
  | first => exact hfirst
  | next hblank =>
    rw [List.append_assoc, List.singleton_append, scanMembers_comma hblank hquote, hfirst]

theorem scanMembers_first_cases {members : Members}
    (h : scanMembers (steps + 1) true cs = (members, some rest)) :
    (members = .close ∧ ∃ blank, Blank blank ∧ cs = blank ++ '}' :: rest) ∨
    ∃ ks text key value tail others, SpellsKey ks key ∧ cs = ks ++ ':' :: text
      ∧ scanValue steps text = (value, some tail)
      ∧ scanMembers steps false tail = (others, some rest)
      ∧ members = .member key value others := by
  revert h
  generalize hn : steps + 1 = n
  generalize hfirst : true = first
  fun_cases scanMembers n first cs <;> intro h
  case case3 htext =>
    cases h
    exact .inl ⟨rfl, exists_blank_of_skipSpace htext⟩
  case case4 _ member htext =>
    cases hn
    obtain ⟨before, hbefore, rfl⟩ := exists_blank_of_skipSpace htext
    simp only [member] at h
    split at h
    · simp at h
    next pieces behind hscan =>
      split at h
      next text hcolon =>
        split at h
        · simp at h
        next value tail hvalue =>
          obtain ⟨rfl, hothers⟩ := Prod.mk.inj h
          obtain ⟨body, rfl, hbody⟩ := spells_of_scanString hscan
          obtain ⟨gap, hgap, rfl⟩ := exists_blank_of_skipSpace hcolon
          exact .inr ⟨_, text, _, value, tail, _, .mk hbefore hbody hgap, by simp, hvalue,
            Prod.ext rfl hothers, rfl⟩
      · simp at h
      · simp at h
  all_goals simp at h hfirst

theorem scanMembers_next_cases {members : Members}
    (h : scanMembers (steps + 1) false cs = (members, some rest)) :
    (members = .close ∧ ∃ blank, Blank blank ∧ cs = blank ++ '}' :: rest) ∨
    ∃ blank text tail, Blank blank ∧ cs = blank ++ ',' :: text ∧ skipSpace text = '"' :: tail := by
  revert h
  generalize hfirst : false = first
  generalize steps + 1 = n
  fun_cases scanMembers n first cs <;> intro h
  case case3 htext =>
    cases h
    exact .inl ⟨rfl, exists_blank_of_skipSpace htext⟩
  case case7 text tail htext _ hcomma =>
    obtain ⟨blank, hblank, rfl⟩ := exists_blank_of_skipSpace hcomma
    exact .inr ⟨blank, text, tail, hblank, rfl, htext⟩
  all_goals simp at h hfirst

theorem scanMembers_cases {members : Members}
    (h : scanMembers (steps + 1) first cs = (members, some rest)) :
    (members = .close ∧ ∃ blank, Blank blank ∧ cs = blank ++ '}' :: rest) ∨
    ∃ lead ks text key value tail others, Lead first lead ∧ SpellsKey ks key
      ∧ cs = lead ++ (ks ++ ':' :: text) ∧ scanValue steps text = (value, some tail)
      ∧ scanMembers steps false tail = (others, some rest)
      ∧ members = .member key value others := by
  cases first with
  | true =>
    obtain hclose | ⟨ks, text, key, value, tail, others, hkey, hscan⟩ := scanMembers_first_cases h
    · exact .inl hclose
    · exact .inr ⟨[], ks, text, key, value, tail, others, .first, hkey, hscan⟩
  | false =>
    obtain hclose | ⟨blank, text, behind, hblank, rfl, htext⟩ := scanMembers_next_cases h
    · exact .inl hclose
    · rw [scanMembers_comma hblank htext] at h
      obtain ⟨-, _, hgap, rfl⟩ | ⟨ks, text, key, value, tail, others, hkey, rfl, hscan⟩ :=
        scanMembers_first_cases h
      · -- An object does not end right behind a comma either.
        rw [skipSpace_blank hgap (by decide)] at htext
        simp at htext
      · exact .inr ⟨blank ++ [','], ks, text, key, value, tail, others, .next hblank, hkey,
          by simp, hscan⟩

end Step

/-! ## From the grammar to the scanner -/

theorem SpellsValue.length_pos {cs : List Char} {o : Outline} (h : SpellsValue cs o) :
    0 < cs.length := by
  obtain ⟨c, tail, rfl, -⟩ := h.head
  simp

mutual

/-- What the grammar derives is scanned as it derives it, where what
follows does not prolong it. -/
theorem scanValue_of_spells : ∀ (o : Outline) {cs : List Char}, SpellsValue cs o →
    ∀ (rest : List Char) (steps : Nat), Stops rest → 2 * (cs ++ rest).length < steps →
    scanValue steps (cs ++ rest) = (o, some rest)
  | .null, _, .null, _, steps + 1, _, _ => rfl
  | .bool true, _, .yes, _, steps + 1, _, _ => rfl
  | .bool false, _, .no, _, steps + 1, _, _ => rfl
  | .num n, _, .num h, rest, steps + 1, hrest, _ => by
    obtain ⟨c, tail, rfl, hc⟩ := h.head
    rw [List.cons_append, scanValue_number hc, ← List.cons_append, numberValue,
      scanNumeral_of_spells h hrest]
  | .str _, _, .str h, rest, steps + 1, _, _ => by
    rw [List.cons_append, List.append_assoc]
    show stringValue (_ ++ '"' :: rest) = _
    rw [stringValue, scanString_of_spells h]
  | .arr items, _, h, rest, steps + 1, _, hsteps => by
    have hopen : ∀ text, scanValue (steps + 1) ('[' :: text)
        = (.arr (scanItems steps true text).1, (scanItems steps true text).2) := fun text => rfl
    cases h with
    | @emptyArr cs hblank =>
      simp only [List.cons_append, List.append_assoc, List.nil_append, List.length_cons] at hsteps ⊢
      obtain ⟨steps, rfl⟩ : ∃ n, steps = n + 1 := ⟨steps - 1, by omega⟩
      rw [hopen, scanItems_close (skipSpace_blank hblank (by decide) rest)]
    | @arr cs _ hitems =>
      simp only [List.cons_append, List.append_assoc, List.nil_append, List.length_cons] at hsteps ⊢
      have hscan := scanItems_of_spells items hitems rest steps .first (by omega)
      rw [List.nil_append] at hscan
      rw [hopen, hscan]
  | .obj members, _, h, rest, steps + 1, _, hsteps => by
    have hopen : ∀ text, scanValue (steps + 1) ('{' :: text)
        = (.obj (scanMembers steps true text).1, (scanMembers steps true text).2) := fun text => rfl
    cases h with
    | @emptyObj cs hblank =>
      simp only [List.cons_append, List.append_assoc, List.nil_append, List.length_cons] at hsteps ⊢
      obtain ⟨steps, rfl⟩ : ∃ n, steps = n + 1 := ⟨steps - 1, by omega⟩
      rw [hopen, scanMembers_close (skipSpace_blank hblank (by decide) rest)]
    | @obj cs _ hmembers =>
      simp only [List.cons_append, List.append_assoc, List.nil_append, List.length_cons] at hsteps ⊢
      have hscan := scanMembers_of_spells members hmembers rest steps .first (by omega)
      rw [List.nil_append] at hscan
      rw [hopen, hscan]

/-- There is one step for an element and one for its value, and the value
has a character. So two steps are enough for one character. -/
theorem scanItems_of_spells : ∀ (items : Items) {cs : List Char}, SpellsItems cs items →
    ∀ (rest : List Char) (steps : Nat) {first : Bool} {lead : List Char}, Lead first lead →
    2 * (cs ++ ']' :: rest).length + 1 < steps →
    scanItems steps first (lead ++ (cs ++ ']' :: rest)) = (items, some rest)
  | .item value items, _, h, rest, steps + 2, _, _, hlead, hsteps => by
    cases h with
    | last h =>
      obtain @⟨before, cs, after, _, hbefore, hspells, hafter⟩ := h
      have hpos := hspells.length_pos
      simp only [List.append_assoc, List.length_append, List.length_cons] at hsteps ⊢
      have hvalue := scanValue_of_spells value hspells (after ++ ']' :: rest) (steps + 1)
        (stops_blank hafter (stops_cons (by decide)))
        (by simp only [List.length_append, List.length_cons]; omega)
      have hclose := scanItems_close (skipSpace_blank hafter (by decide) rest) steps false
      exact scanItems_element hlead hbefore hspells hvalue hclose
    | @more _ ds _ _ h hmore =>
      obtain @⟨before, cs, after, _, hbefore, hspells, hafter⟩ := h
      have hpos := hspells.length_pos
      simp only [List.append_assoc, List.cons_append, List.length_append, List.length_cons]
        at hsteps ⊢
      have hvalue := scanValue_of_spells value hspells (after ++ ',' :: (ds ++ ']' :: rest))
        (steps + 1) (stops_blank hafter (stops_cons (by decide)))
        (by simp only [List.length_append, List.length_cons]; omega)
      have hnext := scanItems_of_spells items hmore rest (steps + 1) (.next hafter)
        (by simp only [List.length_append, List.length_cons]; omega)
      rw [List.append_assoc, List.singleton_append] at hnext
      exact scanItems_element hlead hbefore hspells hvalue hnext

theorem scanMembers_of_spells : ∀ (members : Members) {cs : List Char}, SpellsMembers cs members →
    ∀ (rest : List Char) (steps : Nat) {first : Bool} {lead : List Char}, Lead first lead →
    2 * (cs ++ '}' :: rest).length + 1 < steps →
    scanMembers steps first (lead ++ (cs ++ '}' :: rest)) = (members, some rest)
  | .member key value members, _, h, rest, steps + 2, _, _, hlead, hsteps => by
    cases h with
    | @last ks _ _ _ hkey h =>
      obtain @⟨before, cs, after, _, hbefore, hspells, hafter⟩ := h
      simp only [List.append_assoc, List.cons_append, List.length_append, List.length_cons]
        at hsteps ⊢
      have hvalue := scanValue_of_spells value hspells (after ++ '}' :: rest) (steps + 1)
        (stops_blank hafter (stops_cons (by decide)))
        (by simp only [List.length_append, List.length_cons]; omega)
      have hclose := scanMembers_close (skipSpace_blank hafter (by decide) rest) steps false
      rw [← scanValue_append hbefore] at hvalue
      exact scanMembers_member hlead hkey hvalue hclose
    | @more ks _ ds _ _ _ hkey h hmore =>
      obtain @⟨before, cs, after, _, hbefore, hspells, hafter⟩ := h
      simp only [List.append_assoc, List.cons_append, List.length_append, List.length_cons]
        at hsteps ⊢
      have hvalue := scanValue_of_spells value hspells (after ++ ',' :: (ds ++ '}' :: rest))
        (steps + 1) (stops_blank hafter (stops_cons (by decide)))
        (by simp only [List.length_append, List.length_cons]; omega)
      have hnext := scanMembers_of_spells members hmore rest (steps + 1) (.next hafter)
        (by simp only [List.length_append, List.length_cons]; omega)
      rw [List.append_assoc, List.singleton_append] at hnext
      rw [← scanValue_append hbefore] at hvalue
      exact scanMembers_member hlead hkey hvalue hnext

end

/-! ## From the scanner to the grammar -/

section Scanned

variable {cs rest : List Char} {o : Outline}

theorem spells_of_numberValue (h : numberValue cs = (o, some rest)) :
    ∃ body, SpellsValue body o ∧ cs = body ++ rest := by
  unfold numberValue at h
  split at h
  next n _ hscan =>
    cases h
    obtain ⟨body, hcs, hbody⟩ := spells_of_scanNumeral hscan
    exact ⟨body, .num hbody, hcs⟩
  next => simp [brokenAt] at h

theorem spells_of_stringValue (h : stringValue cs = (o, some rest)) :
    ∃ body, SpellsValue body o ∧ '"' :: cs = body ++ rest := by
  unfold stringValue at h
  split at h
  next pieces _ hscan =>
    cases h
    obtain ⟨body, rfl, hbody⟩ := spells_of_scanString hscan
    exact ⟨_, .str hbody, by simp⟩
  next => simp [brokenAt] at h

theorem eq_append_of_scanWord {word : List Char} (h : scanWord word cs = .ok rest) :
    cs = word ++ rest := by
  fun_induction scanWord word cs with
  | case1 => cases h; rfl
  | case3 c word cs ih => rw [List.cons_append, ← ih h]
  | _ => simp at h

theorem spells_of_wordValue {c : Char} {word : List Char} {value : Outline}
    (hspells : SpellsValue (c :: word) value) (h : wordValue value word cs = (o, some rest)) :
    ∃ body, SpellsValue body o ∧ c :: cs = body ++ rest := by
  unfold wordValue at h
  split at h
  next hscan =>
    cases h
    rw [eq_append_of_scanWord hscan]
    exact ⟨c :: word, hspells, rfl⟩
  next => simp [brokenAt] at h

end Scanned

/-- What so many steps scan to the end is a spelling. -/
structure Derived (steps : Nat) : Prop where
  value : ∀ {cs rest o}, scanValue steps cs = (o, some rest) →
    ∃ before body, Blank before ∧ SpellsValue body o ∧ cs = before ++ (body ++ rest)
  items : ∀ {first cs rest items}, scanItems steps first cs = (items, some rest) →
    (items = .close ∧ ∃ blank, Blank blank ∧ cs = blank ++ ']' :: rest) ∨
    ∃ lead body, Lead first lead ∧ SpellsItems body items ∧ cs = lead ++ (body ++ ']' :: rest)
  members : ∀ {first cs rest members}, scanMembers steps first cs = (members, some rest) →
    (members = .close ∧ ∃ blank, Blank blank ∧ cs = blank ++ '}' :: rest) ∨
    ∃ lead body, Lead first lead ∧ SpellsMembers body members ∧ cs = lead ++ (body ++ '}' :: rest)

theorem Derived.value_succ {steps : Nat} (ih : Derived steps) {cs rest : List Char} {o : Outline}
    (h : scanValue (steps + 1) cs = (o, some rest)) :
    ∃ before body, Blank before ∧ SpellsValue body o ∧ cs = before ++ (body ++ rest) := by
  -- The blanks before the value are all that is passed over.
  suffices htext : ∃ body, SpellsValue body o ∧ skipSpace cs = body ++ rest by
    obtain ⟨body, hbody, hskip⟩ := htext
    obtain ⟨before, hbefore, hcs⟩ := exists_blank cs
    exact ⟨before, body, hbefore, hbody, hskip ▸ hcs⟩
  revert h
  generalize hn : steps + 1 = n
  fun_cases scanValue n cs <;> intro h
  case case3 htext => exact htext ▸ spells_of_stringValue h
  case case4 hscan htext =>
    cases hn
    cases h
    rw [htext]
    obtain ⟨rfl, blank, hblank, rfl⟩ | ⟨_, body, ⟨⟩, hbody, rfl⟩ := ih.items hscan
    · exact ⟨_, .emptyArr hblank, by simp⟩
    · exact ⟨_, .arr hbody, by simp⟩
  case case5 hscan htext =>
    cases hn
    cases h
    rw [htext]
    obtain ⟨rfl, blank, hblank, rfl⟩ | ⟨_, body, ⟨⟩, hbody, rfl⟩ := ih.members hscan
    · exact ⟨_, .emptyObj hblank, by simp⟩
    · exact ⟨_, .obj hbody, by simp⟩
  case case6 htext => exact htext ▸ spells_of_wordValue .null h
  case case7 htext => exact htext ▸ spells_of_wordValue .yes h
  case case8 htext => exact htext ▸ spells_of_wordValue .no h
  case case9 htext => exact htext ▸ spells_of_numberValue h
  all_goals simp [brokenAt] at h

/-- By induction on the steps: an element or a member that was scanned is
a spelling, and so are those behind it. -/
theorem derived (steps : Nat) : Derived steps := by
  induction steps with
  | zero => constructor <;> simp [scanValue, scanItems, scanMembers, brokenAt]
  | succ steps ih =>
    refine ⟨ih.value_succ, fun h => ?_, fun h => ?_⟩
    · obtain hclose | ⟨lead, text, value, tail, others, hlead, rfl, hvalue, hothers, rfl⟩ :=
        scanItems_cases h
      · exact .inl hclose
      · obtain ⟨before, body, hbefore, hbody, rfl⟩ := ih.value hvalue
        obtain ⟨rfl, after, hafter, rfl⟩ | ⟨_, ds, (_ | hafter), hds, rfl⟩ := ih.items hothers
        · exact .inr ⟨lead, _, hlead, .last (.mk hbefore hbody hafter), by simp⟩
        · exact .inr ⟨lead, _, hlead, .more (.mk hbefore hbody hafter) hds, by simp⟩
    · obtain hclose | ⟨lead, ks, text, key, value, tail, others, hlead, hkey, rfl, hvalue, hothers,
        rfl⟩ := scanMembers_cases h
      · exact .inl hclose
      · obtain ⟨before, body, hbefore, hbody, rfl⟩ := ih.value hvalue
        obtain ⟨rfl, after, hafter, rfl⟩ | ⟨_, ds, (_ | hafter), hds, rfl⟩ := ih.members hothers
        · exact .inr ⟨lead, _, hlead, .last hkey (.mk hbefore hbody hafter), by simp⟩
        · exact .inr ⟨lead, _, hlead, .more hkey (.mk hbefore hbody hafter) hds, by simp⟩

/-! ## Texts -/

theorem spells_of_ofText {text : String} {o : Outline} (h : Document.ofText text = ⟨o, true⟩) :
    Spells text.toList o := by
  simp only [Document.ofText] at h
  split at h
  · simp at h
  next rest hscan =>
    obtain ⟨rfl, hrest⟩ := by simpa using h
    obtain ⟨before, body, hbefore, hbody, htext⟩ := (derived _).value hscan
    obtain ⟨after, hafter, hbehind⟩ := exists_blank rest
    rw [htext, hbehind, hrest, List.append_nil]
    exact .mk hbefore hbody hafter

theorem ofText_of_spells {text : String} {o : Outline} (h : Spells text.toList o) :
    Document.ofText text = ⟨o, true⟩ := by
  generalize hcs : text.toList = cs at h
  obtain @⟨before, cs, after, _, hbefore, hspells, hafter⟩ := h
  have hstops : Stops after := by simpa using stops_blank hafter stops_nil
  have hscan : scanValue (2 * (before ++ (cs ++ after)).length + 2) (before ++ (cs ++ after))
      = (o, some after) := by
    rw [scanValue_append hbefore]
    refine scanValue_of_spells o hspells after _ hstops ?_
    simp only [List.length_append]
    omega
  have hend : skipSpace after = [] := by simpa [skipSpace] using skipSpace_append hafter []
  simp only [Document.ofText, hcs, hscan, hend]
  rfl

/-- A text is taken apart to its end exactly if it spells a value, and
then into the outline of this value. -/
theorem ofText_eq_iff {text : String} {o : Outline} :
    Document.ofText text = ⟨o, true⟩ ↔ Spells text.toList o :=
  ⟨spells_of_ofText, ofText_of_spells⟩

mutual

/-- What is spelled out can be passed over. -/
theorem skip_of_spells : ∀ (o : Outline) {cs : List Char}, SpellsValue cs o → o.skip = .ok ()
  | .null, _, _ | .bool _, _, _ | .num _, _, _ | .str _, _, _ => rfl
  | .arr _, _, .emptyArr _ => rfl
  | .arr items, _, .arr h => items_skip_of_spells items h
  | .obj _, _, .emptyObj _ => rfl
  | .obj members, _, .obj h => members_skip_of_spells members h

theorem items_skip_of_spells : ∀ (items : Items) {cs : List Char}, SpellsItems cs items →
    items.skip = .ok ()
  | .item value .close, _, .last (.mk _ h _) => bind_eq_ok.2 ⟨(), skip_of_spells value h, rfl⟩
  | .item value rest, _, .more (.mk _ h _) hrest =>
    bind_eq_ok.2 ⟨(), skip_of_spells value h, items_skip_of_spells rest hrest⟩

theorem members_skip_of_spells : ∀ (members : Members) {cs : List Char}, SpellsMembers cs members →
    members.skip = .ok ()
  | .member _ value .close, _, .last _ (.mk _ h _) =>
    bind_eq_ok.2 ⟨(), skip_of_spells value h, rfl⟩
  | .member _ value rest, _, .more _ (.mk _ h _) hrest =>
    bind_eq_ok.2 ⟨(), skip_of_spells value h, members_skip_of_spells rest hrest⟩

end

theorem Spells.skip {cs : List Char} {o : Outline} (h : Spells cs o) : o.skip = .ok () := by
  obtain ⟨-, h, -⟩ := h
  exact skip_of_spells o h

end OverrideCheck.Json
