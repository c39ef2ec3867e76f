import OverrideCheck.Proofs.Json.Scanning

/-!
# `OverrideCheck.Proofs.Json.Grammar`: the grammar of JSON texts

A relation between characters and the outline of the value that they
spell, written down as the standard has it: blanks around every token,
elements and members with commas between them, numbers without needless
zeros, strings without raw control characters. Nothing in it counts
steps or looks at what follows.

The second half ties strings and numbers to their scanners, in both
directions. A number has no end of its own, so a spelling of it is only
scanned as such if the text behind it cannot prolong it (`Stops`).
Blanks, commas and brackets cannot. Values are in
`Proofs/Json/Derivation.lean`.
-/

set_option autoImplicit false

namespace OverrideCheck.Json

/-! ## The grammar -/

/-- Nothing but blanks. -/
def Blank (cs : List Char) : Prop := ∀ c ∈ cs, isSpace c = true

/-- The characters between the quotes of a string, with the pieces that
they stand for. -/
inductive SpellsString : List Char → List Piece → Prop where
  | nil : SpellsString [] []
  | plain {c : Char} {cs : List Char} {pieces : List Piece} (hquote : c ≠ '"') (hslash : c ≠ '\\')
      (hprintable : 0x20 ≤ c.toNat) (rest : SpellsString cs pieces) :
      SpellsString (c :: cs) (.char c :: pieces)
  | escape {e c : Char} {cs : List Char} {pieces : List Piece} (h : escaped? e = some c)
      (rest : SpellsString cs pieces) : SpellsString ('\\' :: e :: cs) (.char c :: pieces)
  | unit {a b c d : Char} {n : Nat} {cs : List Char} {pieces : List Piece}
      (h : hexUnit? a b c d = some n) (rest : SpellsString cs pieces) :
      SpellsString ('\\' :: 'u' :: a :: b :: c :: d :: cs) (.unit n :: pieces)

/-- One digit or more. -/
def Digits (ds : List Char) : Prop := ds ≠ [] ∧ ∀ c ∈ ds, isDigit c = true

/-- The digits behind the point of a number, if it has one. -/
inductive SpellsFraction : List Char → Option (List Char) → Prop where
  | absent : SpellsFraction [] none
  | present {ds : List Char} (h : Digits ds) : SpellsFraction ('.' :: ds) (some ds)

/-- The sign of an exponent. -/
inductive SpellsSign : List Char → Bool → Prop where
  | absent : SpellsSign [] false
  | plus : SpellsSign ['+'] false
  | minus : SpellsSign ['-'] true

/-- The exponent of a number, if it has one. -/
inductive SpellsExponent : List Char → Option (Bool × List Char) → Prop where
  | absent : SpellsExponent [] none
  | present {mark : Char} {sign ds : List Char} {negative : Bool} (hmark : mark = 'e' ∨ mark = 'E')
      (hsign : SpellsSign sign negative) (hdigits : Digits ds) :
      SpellsExponent (mark :: (sign ++ ds)) (some (negative, ds))

/-- A number. No digit follows a leading zero. -/
inductive SpellsNumeral : List Char → Numeral → Prop where
  | mk {negative : Bool} {whole fraction exponent : List Char} {ds : Option (List Char)}
      {x : Option (Bool × List Char)} (hdigits : Digits whole)
      (hzero : ∀ c cs, whole ≠ '0' :: c :: cs) (hfraction : SpellsFraction fraction ds)
      (hexponent : SpellsExponent exponent x) :
      SpellsNumeral ((if negative then ['-'] else []) ++ (whole ++ (fraction ++ exponent)))
        { negative, whole, fraction := ds, exponent := x }

/-- The name of a member between blanks. -/
inductive SpellsKey : List Char → Option String → Prop where
  | mk {before cs after : List Char} {pieces : List Piece} (hbefore : Blank before)
      (h : SpellsString cs pieces) (hafter : Blank after) :
      SpellsKey (before ++ '"' :: (cs ++ '"' :: after)) (pieceText pieces)

mutual

/-- A value by itself. -/
inductive SpellsValue : List Char → Outline → Prop where
  | null : SpellsValue ['n', 'u', 'l', 'l'] .null
  | yes : SpellsValue ['t', 'r', 'u', 'e'] (.bool true)
  | no : SpellsValue ['f', 'a', 'l', 's', 'e'] (.bool false)
  | num {cs : List Char} {n : Numeral} (h : SpellsNumeral cs n) : SpellsValue cs (.num n)
  | str {cs : List Char} {pieces : List Piece} (h : SpellsString cs pieces) :
      SpellsValue ('"' :: (cs ++ ['"'])) (.str (pieceText pieces))
  | emptyArr {cs : List Char} (h : Blank cs) : SpellsValue ('[' :: (cs ++ [']'])) (.arr .close)
  | arr {cs : List Char} {items : Items} (h : SpellsItems cs items) :
      SpellsValue ('[' :: (cs ++ [']'])) (.arr items)
  | emptyObj {cs : List Char} (h : Blank cs) : SpellsValue ('{' :: (cs ++ ['}'])) (.obj .close)
  | obj {cs : List Char} {members : Members} (h : SpellsMembers cs members) :
      SpellsValue ('{' :: (cs ++ ['}'])) (.obj members)

/-- A value between blanks. -/
inductive Spells : List Char → Outline → Prop where
  | mk {before cs after : List Char} {o : Outline} (hbefore : Blank before)
      (h : SpellsValue cs o) (hafter : Blank after) : Spells (before ++ (cs ++ after)) o

/-- The elements of an array, at least one. -/
inductive SpellsItems : List Char → Items → Prop where
  | last {cs : List Char} {value : Outline} (h : Spells cs value) :
      SpellsItems cs (.item value .close)
  | more {cs ds : List Char} {value : Outline} {items : Items} (h : Spells cs value)
      (rest : SpellsItems ds items) : SpellsItems (cs ++ ',' :: ds) (.item value items)

/-- The members of an object, at least one. -/
inductive SpellsMembers : List Char → Members → Prop where
  | last {ks cs : List Char} {key : Option String} {value : Outline} (hkey : SpellsKey ks key)
      (h : Spells cs value) : SpellsMembers (ks ++ ':' :: cs) (.member key value .close)
  | more {ks cs ds : List Char} {key : Option String} {value : Outline} {members : Members}
      (hkey : SpellsKey ks key) (h : Spells cs value) (rest : SpellsMembers ds members) :
      SpellsMembers (ks ++ ':' :: (cs ++ ',' :: ds)) (.member key value members)

end

/-! ## Blanks and digits -/

theorem skipSpace_append {blank : List Char} (h : Blank blank) (cs : List Char) :
    skipSpace (blank ++ cs) = skipSpace cs :=
  List.dropWhile_append_of_pos h

theorem skipSpace_blank {blank : List Char} (h : Blank blank) {c : Char} (hc : isSpace c = false)
    (cs : List Char) : skipSpace (blank ++ c :: cs) = c :: cs := by
  rw [skipSpace_append h, skipSpace_cons hc]

/-- What is skipped is blank. -/
theorem exists_blank (cs : List Char) : ∃ blank, Blank blank ∧ cs = blank ++ skipSpace cs := by
  refine ⟨cs.takeWhile isSpace, ?_, List.takeWhile_append_dropWhile.symm⟩
  exact List.all_eq_true.1 List.all_takeWhile

/-- No digit comes next. -/
def NoDigit (cs : List Char) : Prop := ∀ c ∈ cs.head?, isDigit c = false

theorem span_digits {ds rest : List Char} (hds : ∀ c ∈ ds, isDigit c = true)
    (hrest : NoDigit rest) :
    (ds ++ rest).takeWhile isDigit = ds ∧ (ds ++ rest).dropWhile isDigit = rest := by
  rw [List.takeWhile_append_of_pos hds, List.dropWhile_append_of_pos hds]
  cases rest with
  | nil => simp
  | cons c rest =>
    have hc : isDigit c = false := hrest c rfl
    simp [hc]

/-- The text cannot prolong a number that stands before it. -/
def Stops (cs : List Char) : Prop :=
  ∀ c ∈ cs.head?, isDigit c = false ∧ c ≠ '.' ∧ c ≠ 'e' ∧ c ≠ 'E'

theorem Stops.noDigit {cs : List Char} (h : Stops cs) : NoDigit cs := fun c hc => (h c hc).1

theorem stops_nil : Stops [] := by simp [Stops]

theorem stops_cons {c : Char} {cs : List Char}
    (h : isDigit c = false ∧ c ≠ '.' ∧ c ≠ 'e' ∧ c ≠ 'E') : Stops (c :: cs) := by
  intro d hd
  obtain rfl : c = d := by simpa using hd
  exact h

/-- Blanks end a number. -/
theorem stops_blank {blank cs : List Char} (hblank : Blank blank) (h : Stops cs) :
    Stops (blank ++ cs) := by
  cases blank with
  | nil => exact h
  | cons c blank =>
    have hspace : isSpace c = true := hblank c (by simp)
    obtain ((rfl | rfl) | rfl) | rfl := by simpa [isSpace] using hspace
    all_goals exact stops_cons (by decide)

/-! ## Strings -/

theorem scanString_of_spells {cs : List Char} {pieces : List Piece} (h : SpellsString cs pieces)
    (rest : List Char) : scanString (cs ++ '"' :: rest) = (pieces, .ok rest) := by
  induction h with
  | nil => rfl
  | plain hquote hslash hprintable _ ih =>
    rw [List.cons_append, scanString, if_neg (Nat.not_lt.2 hprintable), ih] <;> simp_all
  | @escape e c cs pieces h _ ih =>
    -- The letter `u` stands for nothing by itself.
    have hu : e ≠ 'u' := by
      rintro rfl
      simp [escaped?] at h
    rw [List.cons_append, List.cons_append, scanString, h, ih] <;> simp_all
  | unit h _ ih =>
    show scanString ('\\' :: 'u' :: _ :: _ :: _ :: _ :: (_ ++ '"' :: rest)) = _
    rw [scanString, h, ih]

theorem spells_of_scanString {cs rest : List Char} {pieces : List Piece}
    (h : scanString cs = (pieces, .ok rest)) :
    ∃ body, cs = body ++ '"' :: rest ∧ SpellsString body pieces := by
  fun_induction scanString cs generalizing pieces with
  | case2 =>
    obtain ⟨rfl, rfl⟩ := by simpa using h
    exact ⟨[], rfl, .nil⟩
  | case3 _ _ _ _ _ _ hunit _ _ hscan ih =>
    obtain ⟨rfl, rfl⟩ := by simpa using h
    obtain ⟨body, rfl, hbody⟩ := ih hscan
    exact ⟨_, rfl, .unit hunit hbody⟩
  | case7 _ _ _ _ _ hescaped _ _ hscan ih =>
    obtain ⟨rfl, rfl⟩ := by simpa using h
    obtain ⟨body, rfl, hbody⟩ := ih hscan
    exact ⟨_, rfl, .escape hescaped hbody⟩
  | case10 c cs hquote _ _ hend hletter hprintable _ _ hscan ih =>
    obtain ⟨rfl, rfl⟩ := by simpa using h
    obtain ⟨body, rfl, hbody⟩ := ih hscan
    -- A backslash has a case of its own, whatever follows it.
    have hslash : c ≠ '\\' := by
      intro hc
      cases body <;> exact hletter _ _ hc rfl
    exact ⟨_, rfl, .plain hquote hslash (Nat.not_lt.1 hprintable) hbody⟩
  | _ => simp at h

/-! ## Numbers -/

theorem isDigit_sign {c : Char} (h : isDigit c = true) : c ≠ '+' ∧ c ≠ '-' := by
  constructor <;> rintro rfl <;> simp [isDigit] at h

theorem scanExponent_of_spells {cs rest : List Char} {x : Option (Bool × List Char)}
    (h : SpellsExponent cs x) (hrest : Stops rest) {n : Numeral} (hn : n.exponent = none) :
    scanExponent n (cs ++ rest) = .ok ({ n with exponent := x }, rest) := by
  cases h with
  | absent =>
    -- Without an exponent only what follows can be mistaken for one.
    rw [List.nil_append]
    unfold scanExponent
    split
    · have hmark := hrest 'e' rfl
      simp at hmark
    · have hmark := hrest 'E' rfl
      simp at hmark
    · rw [← hn]
  | @present mark sign ds negative hmark hsign hdigits =>
    obtain ⟨htake, hdrop⟩ := span_digits hdigits.2 hrest.noDigit
    obtain ⟨d, ds, rfl⟩ := List.exists_cons_of_ne_nil hdigits.1
    obtain ⟨hplus, hminus⟩ := isDigit_sign (hdigits.2 d (by simp))
    rw [List.cons_append] at htake hdrop
    obtain rfl | rfl := hmark
    all_goals
      cases hsign with
      | absent => simp [scanExponent, htake, hdrop, hplus, hminus]
      | plus => simp [scanExponent, htake, hdrop]
      | minus => simp [scanExponent, htake, hdrop]

/-- An exponent, or what follows where there is none, prolongs neither
the digits before it nor those behind a point. -/
theorem head_exponent {cs rest : List Char} {x : Option (Bool × List Char)}
    (h : SpellsExponent cs x) (hrest : Stops rest) :
    ∀ c ∈ (cs ++ rest).head?, isDigit c = false ∧ c ≠ '.' := by
  intro c hc
  cases h with
  | absent => exact ⟨(hrest c hc).1, (hrest c hc).2.1⟩
  | present hmark =>
    obtain rfl | rfl := hmark
    all_goals
      obtain rfl : _ = c := by simpa using hc
      decide

theorem scanFraction_of_spells {fraction exponent rest : List Char} {ds : Option (List Char)}
    {x : Option (Bool × List Char)} (hfraction : SpellsFraction fraction ds)
    (hexponent : SpellsExponent exponent x) (hrest : Stops rest) {n : Numeral}
    (hn : n.fraction = none) (hn' : n.exponent = none) :
    scanFraction n (fraction ++ (exponent ++ rest))
      = .ok ({ n with fraction := ds, exponent := x }, rest) := by
  have hhead := head_exponent hexponent hrest
  cases hfraction with
  | absent =>
    rw [List.nil_append, ← hn]
    have hscan := scanExponent_of_spells hexponent hrest hn'
    unfold scanFraction
    split
    next heq =>
      rw [heq] at hhead
      have hpoint := hhead '.' rfl
      simp at hpoint
    next => exact hscan
  | @present ds hdigits =>
    obtain ⟨htake, hdrop⟩ := span_digits hdigits.2 fun c hc => (hhead c hc).1
    have hscan := scanExponent_of_spells (n := { n with fraction := some ds }) hexponent hrest hn'
    obtain ⟨d, ds, rfl⟩ := List.exists_cons_of_ne_nil hdigits.1
    rw [List.cons_append] at htake hdrop
    simp only [List.cons_append, scanFraction, htake, hdrop]
    exact hscan

theorem scanNumeral_of_spells {cs rest : List Char} {n : Numeral} (h : SpellsNumeral cs n)
    (hrest : Stops rest) : scanNumeral (cs ++ rest) = .ok (n, rest) := by
  obtain @⟨negative, whole, fraction, exponent, ds, x, hdigits, hzero, hfraction, hexponent⟩ := h
  have hscan := scanFraction_of_spells (n := { negative, whole }) hfraction hexponent hrest rfl rfl
  have hhead : NoDigit (fraction ++ (exponent ++ rest)) := by
    cases hfraction with
    | absent => exact fun c hc => (head_exponent hexponent hrest c hc).1
    | present => simp [NoDigit, isDigit]
  obtain ⟨htake, hdrop⟩ := span_digits hdigits.2 hhead
  obtain ⟨d, whole, rfl⟩ := List.exists_cons_of_ne_nil hdigits.1
  obtain ⟨-, hminus⟩ := isDigit_sign (hdigits.2 d (by simp))
  rw [List.cons_append] at htake hdrop
  cases negative
  all_goals simpa [scanNumeral, htake, hdrop, hminus] using hscan

theorem digits_takeWhile {cs : List Char} (h : cs.takeWhile isDigit ≠ []) :
    Digits (cs.takeWhile isDigit) :=
  ⟨h, List.all_eq_true.1 List.all_takeWhile⟩

/-- What stands before the digits of an exponent is a sign. -/
theorem exists_sign {cs tail : List Char} {negative : Bool}
    (h : (match cs with
      | '+' :: rest => (false, rest)
      | '-' :: rest => (true, rest)
      | rest => (false, rest)) = (negative, tail)) :
    ∃ sign, cs = sign ++ tail ∧ SpellsSign sign negative := by
  split at h <;> cases h
  · exact ⟨['+'], rfl, .plus⟩
  · exact ⟨['-'], rfl, .minus⟩
  · exact ⟨[], rfl, .absent⟩

theorem spells_of_scanExponent {n m : Numeral} {cs rest : List Char} (hn : n.exponent = none)
    (h : scanExponent n cs = .ok (m, rest)) :
    ∃ exponent x, cs = exponent ++ rest ∧ SpellsExponent exponent x
      ∧ m = { n with exponent := x } := by
  have hpresent : ∀ {mark tail digits negative}, mark = 'e' ∨ mark = 'E' →
      (∃ sign, tail = sign ++ digits ∧ SpellsSign sign negative) →
      digits.takeWhile isDigit ≠ [] →
      ({ n with exponent := some (negative, digits.takeWhile isDigit) },
        digits.dropWhile isDigit) = (m, rest) →
      ∃ exponent x, mark :: tail = exponent ++ rest ∧ SpellsExponent exponent x
        ∧ m = { n with exponent := x } := by
    rintro mark tail digits negative hmark ⟨sign, rfl, hsign⟩ hdigits heq
    cases heq
    refine ⟨mark :: (sign ++ digits.takeWhile isDigit), _, ?_,
      .present hmark hsign (digits_takeWhile hdigits), rfl⟩
    simp [List.takeWhile_append_dropWhile]
  revert h
  fun_cases scanExponent n cs <;> intro h
  case case2 hsign hdigits =>
    exact hpresent (.inl rfl) (exists_sign hsign) hdigits (by simpa using h)
  case case4 hsign hdigits =>
    exact hpresent (.inr rfl) (exists_sign hsign) hdigits (by simpa using h)
  case case5 =>
    cases h
    exact ⟨[], none, rfl, .absent, by rw [← hn]⟩
  all_goals simp at h

theorem spells_of_scanFraction {n m : Numeral} {cs rest : List Char} (hn : n.fraction = none)
    (hn' : n.exponent = none) (h : scanFraction n cs = .ok (m, rest)) :
    ∃ fraction exponent ds x, cs = fraction ++ (exponent ++ rest) ∧ SpellsFraction fraction ds
      ∧ SpellsExponent exponent x ∧ m = { n with fraction := ds, exponent := x } := by
  revert h
  fun_cases scanFraction n cs <;> intro h
  case case1 => simp at h
  case case2 tail hdigits =>
    obtain ⟨exponent, x, hcs, hexponent, rfl⟩ := spells_of_scanExponent (by exact hn') h
    refine ⟨'.' :: tail.takeWhile isDigit, exponent, _, x, ?_,
      .present (digits_takeWhile hdigits), hexponent, rfl⟩
    rw [List.cons_append, ← hcs, List.takeWhile_append_dropWhile]
  case case3 =>
    obtain ⟨exponent, x, rfl, hexponent, rfl⟩ := spells_of_scanExponent hn' h
    exact ⟨[], exponent, none, x, rfl, .absent, hexponent, by rw [← hn]⟩

theorem spells_of_scanNumeral {n : Numeral} {cs rest : List Char}
    (h : scanNumeral cs = .ok (n, rest)) : ∃ body, cs = body ++ rest ∧ SpellsNumeral body n := by
  revert h
  fun_cases scanNumeral cs <;> intro h
  case case3 negative tail hsign hdigits hzero =>
    have hcs : cs = (if negative then ['-'] else []) ++ tail := by
      split at hsign <;> cases hsign <;> rfl
    obtain ⟨fraction, exponent, ds, x, hrest, hfraction, hexponent, rfl⟩ :=
      spells_of_scanFraction (by rfl) (by rfl) h
    refine ⟨_, ?_, .mk (digits_takeWhile hdigits) hzero hfraction hexponent⟩
    rw [hcs, List.append_assoc, List.append_assoc, List.append_assoc, ← hrest,
      List.takeWhile_append_dropWhile]
  all_goals simp at h

end OverrideCheck.Json
