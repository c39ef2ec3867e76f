import OverrideCheck.Diagnostic.Basic

/-!
# `OverrideCheck.Proofs.Diagnostic.Filling`: what a filled template says

`fill` puts the arguments of a message in one after the other, each
over the whole text. `substitute` puts them in at once: it looks at the
template alone, and what it puts in is never looked at again. This
module compares the two on the templates of the table.

A template is a list of marks, each of them a character or the slot of
an argument (`Mark`). In the table no two slots stand side by side, and
no character between them could be part of a placeholder
(`wellMade_template`). Such a character keeps what is left of it apart
from what is right of it (`Text.replaceFrom_append_cons`), so replacing
a placeholder in a filled template is replacing it in what was put into
each slot (`replaceAll_filled`).

What comes out is the template with each slot filled at once, but not
with the arguments as they were given: in every argument, the
placeholders of later arguments have been filled as well (`refilled`).
So the two ways of filling agree if no argument holds the placeholder
of a later one, and `fill_quotes_verbatim` says both. They disagree as
soon as a name in a file reads like a placeholder
(`fill_rewrites_argument`).
-/

set_option autoImplicit false

namespace OverrideCheck

namespace Text

variable {old new : List Char}

/-- A character that `old` does not hold ends every match: what comes
behind it does not matter. -/
theorem isPrefixOf_append_cons {c : Char} (hc : c ∉ old) (a b : List Char) :
    old.isPrefixOf (a ++ c :: b) = old.isPrefixOf a := by
  induction a generalizing old with
  | nil =>
    cases old with
    | nil => rfl
    | cons o os =>
      have hne : o ≠ c := fun h => hc (h ▸ List.mem_cons_self)
      simp [List.isPrefixOf, hne]
  | cons x a ih =>
    cases old with
    | nil => rfl
    | cons o os =>
      have hos : c ∉ os := fun h => hc (List.mem_cons_of_mem o h)
      show (o == x && os.isPrefixOf (a ++ c :: b)) = (o == x && os.isPrefixOf a)
      rw [ih hos]

/-- A match lies within the text. -/
theorem length_le_of_isPrefixOf {text : List Char} (h : old.isPrefixOf text = true) :
    old.length ≤ text.length :=
  (List.isPrefixOf_iff_prefix.1 h).length_le

/-- What is left and what is right of a character that `old` does not
hold are replaced apart from each other. -/
theorem replaceFrom_append_cons {c : Char} (hc : c ∉ old) (hold : old ≠ []) (b : List Char) :
    ∀ (a : List Char) (skip : Nat), skip ≤ a.length →
      replaceFrom old new skip (a ++ c :: b)
        = replaceFrom old new skip a ++ c :: replaceFrom old new 0 b := by
  intro a
  induction a with
  | nil =>
    intro skip hskip
    obtain rfl : skip = 0 := Nat.le_zero.1 hskip
    have hfail : old.isPrefixOf (c :: b) = false := by
      have h := isPrefixOf_append_cons hc [] b
      rw [List.nil_append] at h
      rw [h]
      cases old with
      | nil => exact absurd rfl hold
      | cons o os => rfl
    simp [replaceFrom, hfail]
  | cons x a ih =>
    intro skip hskip
    cases skip with
    | succ skip => exact ih skip (Nat.le_of_succ_le_succ hskip)
    | zero =>
      have hmatch := isPrefixOf_append_cons hc (x :: a) b
      rw [List.cons_append] at hmatch ⊢
      rw [replaceFrom, replaceFrom, hmatch]
      split
      · next h =>
        -- The match ends within the left part, and so does what is skipped.
        have hlength := length_le_of_isPrefixOf h
        rw [List.length_cons] at hlength
        rw [ih (old.length - 1) (by omega), List.append_assoc]
      · rw [ih 0 (Nat.zero_le _), List.cons_append]

/-- Where nothing is found, nothing is replaced. -/
theorem replaceFrom_of_not_infix :
    ∀ {text : List Char}, ¬ old <:+: text → replaceFrom old new 0 text = text
  | [], _ => rfl
  | c :: text, h => by
    have hfail : ¬ old.isPrefixOf (c :: text) = true := fun hmatch =>
      h (List.isPrefixOf_iff_prefix.1 hmatch).isInfix
    have hrest : ¬ old <:+: text := fun hwithin => h (List.infix_cons hwithin)
    rw [replaceFrom, if_neg hfail, replaceFrom_of_not_infix hrest]

/-- After as many characters as are to be passed over, replacing starts
again. -/
theorem replaceFrom_skip : ∀ (skipped text : List Char),
    replaceFrom old new skipped.length (skipped ++ text) = replaceFrom old new 0 text
  | [], _ => rfl
  | _ :: skipped, text => replaceFrom_skip skipped text

/-- A text is replaced as a whole. -/
theorem replaceFrom_self (hold : old ≠ []) : replaceFrom old new 0 old = new := by
  cases old with
  | nil => exact absurd rfl hold
  | cons o os =>
    have hmatch : (o :: os).isPrefixOf (o :: os) = true :=
      List.isPrefixOf_iff_prefix.2 (List.prefix_refl _)
    have hskip : replaceFrom (o :: os) new os.length os = replaceFrom (o :: os) new 0 [] := by
      have h := @replaceFrom_skip (o :: os) new os []
      rwa [List.append_nil] at h
    rw [replaceFrom, if_pos hmatch, List.length_cons, Nat.add_sub_cancel, hskip, replaceFrom,
      List.append_nil]

end Text

theorem toList_placeholder (i : Nat) :
    (placeholder i).toList = '{' :: (Nat.toDigits 10 i ++ ['}']) := by
  simp [placeholder]

theorem toList_placeholder_ne_nil (i : Nat) : (placeholder i).toList ≠ [] := by
  rw [toList_placeholder]
  exact List.cons_ne_nil _ _

/-- The character is part of no placeholder. -/
def IsPlain (c : Char) : Bool := !(c == '{' || c == '}' || c.isDigit)

theorem not_mem_placeholder {c : Char} (hc : IsPlain c = true) (i : Nat) :
    c ∉ (placeholder i).toList := by
  rw [toList_placeholder]
  intro hmem
  simp only [IsPlain, Bool.not_eq_true', Bool.or_eq_false_iff, beq_eq_false_iff_ne] at hc
  obtain ⟨⟨hopen, hclose⟩, hdigit⟩ := hc
  rcases List.mem_cons.1 hmem with h | hmem
  · exact hopen h
  · rcases List.mem_append.1 hmem with h | h
    · rw [Nat.isDigit_of_mem_toDigits (by decide) (by decide) h] at hdigit
      cases hdigit
    · exact hclose (List.mem_singleton.1 h)

/-- No brace opens behind the first character of a placeholder. -/
theorem open_not_mem_digits (i : Nat) : '{' ∉ Nat.toDigits 10 i ++ ['}'] := by
  intro hmem
  rcases List.mem_append.1 hmem with h | h
  · exact absurd (Nat.isDigit_of_mem_toDigits (by decide) (by decide) h) (by decide)
  · exact absurd (List.mem_singleton.1 h) (by decide)

/-- The digits of a placeholder end at its closing brace. -/
theorem takeWhile_digits (i : Nat) (rest : List Char) :
    (Nat.toDigits 10 i ++ '}' :: rest).takeWhile Char.isDigit = Nat.toDigits 10 i := by
  rw [List.takeWhile_append_of_pos fun c hc =>
    Nat.isDigit_of_mem_toDigits (by decide) (by decide) hc]
  simp

/-- Where one placeholder begins, no other does. -/
theorem prefix_placeholder_iff {k i : Nat} {rest : List Char} :
    (placeholder k).toList <+: (placeholder i).toList ++ rest ↔ k = i := by
  constructor
  · rintro ⟨more, h⟩
    rw [toList_placeholder, toList_placeholder] at h
    simp only [List.cons_append, List.append_assoc, List.cons.injEq, true_and,
      List.nil_append] at h
    -- Both sides begin with the digits of their number and a brace.
    have hdigits : Nat.toDigits 10 k = Nat.toDigits 10 i := by
      rw [← takeWhile_digits k more, h, takeWhile_digits]
    calc
      k = Nat.ofDigitChars 10 (Nat.toDigits 10 k) 0 := Nat.ofDigitChars_ten_toDigits.symm
      _ = Nat.ofDigitChars 10 (Nat.toDigits 10 i) 0 := by rw [hdigits]
      _ = i := Nat.ofDigitChars_ten_toDigits
  · rintro rfl
    exact List.prefix_append _ _

/-- No placeholder holds another. -/
theorem infix_placeholder_iff {k i : Nat} :
    (placeholder k).toList <:+: (placeholder i).toList ↔ k = i := by
  constructor
  · intro h
    rw [toList_placeholder i] at h
    rcases List.infix_cons_iff.1 h with hhead | hwithin
    · rw [← toList_placeholder i, ← List.append_nil (placeholder i).toList] at hhead
      exact prefix_placeholder_iff.1 hhead
    · -- The brace that opens the placeholder would stand behind the first one.
      have hopen : '{' ∈ (placeholder k).toList := by
        rw [toList_placeholder]
        exact List.mem_cons_self
      exact absurd (hwithin.subset hopen) (open_not_mem_digits i)
  · rintro rfl
    exact List.infix_refl _

/-- Replacing a placeholder replaces it, and leaves the others. -/
theorem replaceAll_placeholder (i k : Nat) (arg : String) :
    Text.replaceAll (placeholder i) (placeholder k) arg = if k = i then arg else placeholder i := by
  unfold Text.replaceAll
  split
  · next h =>
    rw [h, Text.replaceFrom_self (toList_placeholder_ne_nil i), String.ofList_toList]
  · next h =>
    rw [Text.replaceFrom_of_not_infix fun hwithin => h (infix_placeholder_iff.1 hwithin),
      String.ofList_toList]

/-! ### Templates -/

/-- A part of a template: a character, or the place of an argument. -/
inductive Mark where
  | char (c : Char)
  | slot (i : Nat)
  deriving DecidableEq, Repr

/-- What a mark reads as, with the given contents in the slots. -/
def Mark.text (contents : Nat → String) : Mark → List Char
  | .char c => [c]
  | .slot i => (contents i).toList

/-- The text that the marks make with the given contents in their
slots. -/
def filled (contents : Nat → String) (marks : List Mark) : String :=
  String.ofList (marks.flatMap (Mark.text contents))

/-- No two slots are side by side, and no character could be part of a
placeholder. -/
def Separated : List Mark → Bool
  | [] => true
  | .char c :: marks => IsPlain c && Separated marks
  | [.slot _] => true
  | .slot _ :: .char c :: marks => IsPlain c && Separated marks
  | .slot _ :: .slot _ :: _ => false

/-- The marks of a text. A digit in braces is a slot. -/
def marksOf : List Char → List Mark
  | '{' :: digit :: '}' :: rest => .slot (digit.toNat - '0'.toNat) :: marksOf rest
  | c :: rest => .char c :: marksOf rest
  | [] => []

/-- The text is spelled by its marks, and they are separated. -/
def WellMade (text : List Char) : Prop :=
  (marksOf text).flatMap (Mark.text placeholder) = text ∧ Separated (marksOf text) = true

instance (text : List Char) : Decidable (WellMade text) :=
  inferInstanceAs (Decidable (_ ∧ _))

theorem wellMade_ofList {text : List Char} (h : WellMade text) :
    WellMade (String.ofList text).toList := by
  rw [String.toList_ofList]
  exact h

theorem wellMade_append {a b : List Char} (h : WellMade (a ++ b)) :
    WellMade (String.ofList a ++ String.ofList b).toList := by
  rw [String.toList_append, String.toList_ofList, String.toList_ofList]
  exact h

/-- Every template of the table is made of separated marks. -/
theorem wellMade_template (rule : Rule) : WellMade rule.template.toList := by
  cases rule with
  | memberKindChanged | propertyTypeNotCompatible | parameterCountChanged | parameterTypeChanged
  | parameterOptionalityChanged | parameterVariadicChanged | returnTypeNotCompatible
  | unresolvedTypeReference => exact wellMade_append (by decide +kernel)
  | _ => exact wellMade_ofList (by decide +kernel)

/-- A template is its marks with the placeholders in the slots. -/
theorem filled_placeholder (rule : Rule) :
    filled placeholder (marksOf rule.template.toList) = rule.template := by
  rw [filled, (wellMade_template rule).1, String.ofList_toList]

/-- Replacing a placeholder in a filled template is replacing it in each
of the contents. -/
theorem replaceAll_filled {marks : List Mark} (h : Separated marks = true)
    (contents : Nat → String) (k : Nat) (arg : String) :
    Text.replaceAll (filled contents marks) (placeholder k) arg
      = filled (fun i => Text.replaceAll (contents i) (placeholder k) arg) marks := by
  have hne := toList_placeholder_ne_nil k
  -- A plain character keeps the slot before it apart from the rest.
  have split {c : Char} (hc : IsPlain c = true) (a b : List Char) :
      Text.replaceFrom (placeholder k).toList arg.toList 0 (a ++ c :: b)
        = Text.replaceFrom (placeholder k).toList arg.toList 0 a
          ++ c :: Text.replaceFrom (placeholder k).toList arg.toList 0 b :=
    Text.replaceFrom_append_cons (not_mem_placeholder hc k) hne b a 0 (Nat.zero_le _)
  unfold filled Text.replaceAll
  rw [String.toList_ofList]
  congr 1
  fun_induction Separated marks with
  | case1 => rfl
  | case2 c marks ih =>
    rw [Bool.and_eq_true] at h
    rw [List.flatMap_cons, List.flatMap_cons, ← ih h.2]
    exact split h.1 [] _
  | case3 i => simp [Mark.text]
  | case4 i c marks ih =>
    rw [Bool.and_eq_true] at h
    simp only [List.flatMap_cons, Mark.text, List.cons_append, List.nil_append]
    rw [split h.1, ih h.2, String.toList_ofList]
  | case5 => cases h

/-- Putting arguments into a filled template is putting them into each
of the contents. -/
theorem fillFrom_filled {marks : List Mark} (h : Separated marks = true) :
    ∀ (args : List String) (k : Nat) (contents : Nat → String),
      fillFrom k (filled contents marks) args = filled (fun i => fillFrom k (contents i) args) marks
  | [], _, _ => rfl
  | arg :: args, k, contents => by
    rw [fillFrom, replaceAll_filled h, fillFrom_filled h args]
    rfl

/-! ### One after the other -/

/-- The arguments, the first of them at the given position, with the
placeholders of later ones filled in each. -/
def refilledFrom : Nat → List String → List String
  | _, [] => []
  | k, arg :: args => fillFrom (k + 1) arg args :: refilledFrom (k + 1) args

/-- The arguments with the placeholders of later ones filled in each. -/
def refilled (args : List String) : List String := refilledFrom 0 args

/-- What is put in for a placeholder: its argument, refilled, if there
is one. -/
theorem fillFrom_placeholder :
    ∀ (args : List String) (k n : Nat),
      fillFrom k (placeholder (k + n)) args = (refilledFrom k args).getD n (placeholder (k + n))
  | [], _, _ => rfl
  | arg :: args, k, 0 => by
    rw [fillFrom, replaceAll_placeholder, if_pos (Nat.add_zero k).symm]
    rfl
  | arg :: args, k, n + 1 => by
    have hne : k ≠ k + (n + 1) := by omega
    rw [fillFrom, replaceAll_placeholder, if_neg hne, Nat.add_comm n 1, ← Nat.add_assoc,
      fillFrom_placeholder args]
    rw [Nat.add_comm 1 n]
    rfl

/-- A template of the table, filled one argument after the other. -/
theorem fill_template (rule : Rule) (args : List String) :
    fill rule.template args
      = filled (fun i => (refilled args).getD i (placeholder i))
          (marksOf rule.template.toList) := by
  have hslot : ∀ i, fillFrom 0 (placeholder i) args = (refilled args).getD i (placeholder i) := by
    intro i
    have h := fillFrom_placeholder args 0 i
    rw [Nat.zero_add] at h
    exact h
  have hslots := fillFrom_filled (wellMade_template rule).2 args 0 placeholder
  rw [filled_placeholder, funext hslot] at hslots
  exact hslots

/-! ### All at once -/

/-- The argument whose placeholder the text begins with, and its
position. -/
def heldPlace? (args : List String) (text : List Char) : Option (String × Nat) :=
  args.zipIdx.find? fun arg => (placeholder arg.2).toList.isPrefixOf text

/-- Put the arguments in where their placeholders are, passing over the
characters of a placeholder just replaced: `skip` of them are still to
be dropped. -/
def substituteFrom (args : List String) : Nat → List Char → List Char
  | _, [] => []
  | skip + 1, _ :: rest => substituteFrom args skip rest
  | 0, c :: rest =>
    match heldPlace? args (c :: rest) with
    | some (arg, i) => arg.toList ++ substituteFrom args ((placeholder i).length - 1) rest
    | none => c :: substituteFrom args 0 rest

/-- Put the arguments into a template all at once: each placeholder is
replaced by its argument, and everything else is kept. -/
def substitute (template : String) (args : List String) : String :=
  String.ofList (substituteFrom args 0 template.toList)

/-- The entry of a list at a position, found by the position. -/
theorem find?_zipIdx (args : List String) (i : Nat) :
    ∀ k, (args.zipIdx k).find? (fun arg => decide (arg.2 = k + i)) = args[i]?.map (·, k + i) := by
  induction args generalizing i with
  | nil => intro k; rfl
  | cons arg args ih =>
    intro k
    rw [List.zipIdx_cons, List.find?_cons]
    cases i with
    | zero => simp
    | succ i =>
      have hne : decide (k = k + (i + 1)) = false := decide_eq_false (by omega)
      have hshift : k + (i + 1) = k + 1 + i := by omega
      simp only [hne, List.getElem?_cons_succ]
      rw [hshift]
      exact ih i (k + 1)

theorem heldPlace?_placeholder (args : List String) (i : Nat) (rest : List Char) :
    heldPlace? args ((placeholder i).toList ++ rest) = args[i]?.map (·, i) := by
  have hfind := find?_zipIdx args i 0
  rw [Nat.zero_add] at hfind
  rw [← hfind]
  unfold heldPlace?
  congr 1
  funext arg
  rw [Bool.eq_iff_iff, List.isPrefixOf_iff_prefix, decide_eq_true_iff, prefix_placeholder_iff]

theorem heldPlace?_of_ne {c : Char} (hc : c ≠ '{') (args : List String) (rest : List Char) :
    heldPlace? args (c :: rest) = none := by
  unfold heldPlace?
  rw [List.find?_eq_none]
  intro arg _ hmatch
  rw [List.isPrefixOf_iff_prefix, toList_placeholder] at hmatch
  exact hc (List.cons_prefix_cons.1 hmatch).1.symm

theorem substituteFrom_skip (args : List String) : ∀ skipped rest : List Char,
    substituteFrom args skipped.length (skipped ++ rest) = substituteFrom args 0 rest
  | [], _ => rfl
  | _ :: skipped, rest => substituteFrom_skip args skipped rest

theorem substituteFrom_cons_of_ne {c : Char} (hc : c ≠ '{') (args : List String)
    (rest : List Char) : substituteFrom args 0 (c :: rest) = c :: substituteFrom args 0 rest := by
  rw [substituteFrom, heldPlace?_of_ne hc]

/-- Text in which no brace opens is kept. -/
theorem substituteFrom_append_of_not_mem (args : List String) :
    ∀ {text : List Char}, '{' ∉ text → ∀ rest : List Char,
      substituteFrom args 0 (text ++ rest) = text ++ substituteFrom args 0 rest
  | [], _, _ => rfl
  | c :: text, h, rest => by
    have hc : c ≠ '{' := fun heq => h (heq ▸ List.mem_cons_self)
    have htext : '{' ∉ text := fun hmem => h (List.mem_cons_of_mem c hmem)
    rw [List.cons_append, substituteFrom_cons_of_ne hc, substituteFrom_append_of_not_mem args htext]
    rfl

/-- A placeholder is replaced by its argument, if there is one. -/
theorem substituteFrom_placeholder (args : List String) (i : Nat) (rest : List Char) :
    substituteFrom args 0 ((placeholder i).toList ++ rest)
      = (args.getD i (placeholder i)).toList ++ substituteFrom args 0 rest := by
  have hheld := heldPlace?_placeholder args i rest
  have hlength : (placeholder i).length - 1 = (Nat.toDigits 10 i ++ ['}']).length := by
    rw [← String.length_toList, toList_placeholder, List.length_cons, Nat.add_sub_cancel]
  rw [List.getD_eq_getElem?_getD]
  rw [toList_placeholder, List.cons_append] at hheld ⊢
  rw [substituteFrom, hheld]
  cases args[i]? with
  | none =>
    show '{' :: substituteFrom args 0 _ = (placeholder i).toList ++ _
    rw [substituteFrom_append_of_not_mem args (open_not_mem_digits i), toList_placeholder]
    rfl
  | some arg =>
    show arg.toList ++ substituteFrom args ((placeholder i).length - 1) _ = arg.toList ++ _
    rw [hlength, substituteFrom_skip]

/-- A template of separated marks, filled all at once. -/
theorem substitute_filled {marks : List Mark} (h : Separated marks = true) (args : List String) :
    substitute (filled placeholder marks) args
      = filled (fun i => args.getD i (placeholder i)) marks := by
  have kept {c : Char} (hc : IsPlain c = true) : c ≠ '{' := by
    rintro rfl
    cases hc
  unfold substitute filled
  rw [String.toList_ofList]
  congr 1
  fun_induction Separated marks with
  | case1 => rfl
  | case2 c marks ih =>
    rw [Bool.and_eq_true] at h
    rw [List.flatMap_cons, List.flatMap_cons, ← ih h.2]
    exact substituteFrom_cons_of_ne (kept h.1) args _
  | case3 i =>
    have hslot := substituteFrom_placeholder args i []
    rw [List.append_nil] at hslot
    simp only [List.flatMap_cons, List.flatMap_nil, Mark.text, List.append_nil]
    rw [hslot, substituteFrom, List.append_nil]
  | case4 i c marks ih =>
    rw [Bool.and_eq_true] at h
    simp only [List.flatMap_cons, Mark.text, List.cons_append, List.nil_append]
    rw [substituteFrom_placeholder, substituteFrom_cons_of_ne (kept h.1), ih h.2]
  | case5 => cases h

/-- A template of the table, filled all at once. -/
theorem substitute_template (rule : Rule) (args : List String) :
    substitute rule.template args
      = filled (fun i => args.getD i (placeholder i)) (marksOf rule.template.toList) := by
  have hslots := substitute_filled (wellMade_template rule).2 args
  rw [filled_placeholder] at hslots
  exact hslots

/-! ### When the two agree -/

/-- The text holds the placeholder. -/
def Holds (text : String) (i : Nat) : Prop := (placeholder i).toList <:+: text.toList

instance (text : String) (i : Nat) : Decidable (Holds text i) :=
  inferInstanceAs (Decidable ((placeholder i).toList <:+: text.toList))

/-- No argument holds the placeholder of a later one. -/
def Quotable (args : List String) : Prop :=
  args.zipIdx.Pairwise fun earlier later => ¬ Holds earlier.1 later.2

instance (args : List String) : Decidable (Quotable args) :=
  inferInstanceAs (Decidable (args.zipIdx.Pairwise _))

theorem fillFrom_of_not_holds {text : String} :
    ∀ {args : List String} {k : Nat}, (∀ arg ∈ args.zipIdx k, ¬ Holds text arg.2) →
      fillFrom k text args = text
  | [], _, _ => rfl
  | arg :: args, k, h => by
    rw [List.zipIdx_cons] at h
    obtain ⟨hfirst, hrest⟩ := List.forall_mem_cons.1 h
    have hkept : Text.replaceAll text (placeholder k) arg = text := by
      rw [Text.replaceAll, Text.replaceFrom_of_not_infix hfirst, String.ofList_toList]
    rw [fillFrom, hkept, fillFrom_of_not_holds hrest]

theorem refilledFrom_eq :
    ∀ {args : List String} {k : Nat},
      (args.zipIdx k).Pairwise (fun earlier later => ¬ Holds earlier.1 later.2) →
      refilledFrom k args = args
  | [], _, _ => rfl
  | arg :: args, k, h => by
    rw [List.zipIdx_cons, List.pairwise_cons] at h
    rw [refilledFrom, fillFrom_of_not_holds h.1, refilledFrom_eq h.2]

/-- The text of a diagnostic is its template with every placeholder
replaced by its argument at once, where in each argument the
placeholders of later arguments have been filled first. So arguments of
which none holds the placeholder of a later one are quoted verbatim,
whatever else they hold. -/
theorem fill_quotes_verbatim (rule : Rule) (args : List String) :
    fill rule.template args = substitute rule.template (refilled args) ∧
    (Quotable args → fill rule.template args = substitute rule.template args) := by
  have hfill : fill rule.template args = substitute rule.template (refilled args) := by
    rw [fill_template, substitute_template]
  refine ⟨hfill, fun hargs => ?_⟩
  rw [hfill, refilled, refilledFrom_eq hargs]

/-- Braces alone do no harm: an argument may hold its own placeholder
or that of no argument. -/
theorem fill_quotes_verbatim_braces :
    Quotable ["pet.\x7b0\x7d", "\x7b7\x7d\x7b"] ∧
    fill Rule.inheritanceCycle.template ["pet.\x7b0\x7d", "\x7b7\x7d\x7b"]
      = "The inheritance graph of 'pet.\x7b0\x7d' contains a cycle through '\x7b7\x7d\x7b'." := by
  have hargs : Quotable ["pet.\x7b0\x7d", "\x7b7\x7d\x7b"] := by decide +kernel
  refine ⟨hargs, ((fill_quotes_verbatim .inheritanceCycle _).2 hargs).trans ?_⟩
  decide +kernel

/-- A name that reads like the placeholder of a later argument is
overwritten by that argument. -/
theorem fill_rewrites_argument :
    fill Rule.inheritanceCycle.template ["\x7b1\x7d", "pet.Dog"]
      = "The inheritance graph of 'pet.Dog' contains a cycle through 'pet.Dog'." ∧
    substitute Rule.inheritanceCycle.template ["\x7b1\x7d", "pet.Dog"]
      = "The inheritance graph of '\x7b1\x7d' contains a cycle through 'pet.Dog'." ∧
    fill Rule.inheritanceCycle.template ["\x7b1\x7d", "pet.Dog"]
      ≠ substitute Rule.inheritanceCycle.template ["\x7b1\x7d", "pet.Dog"] := by
  have hfill : fill Rule.inheritanceCycle.template ["\x7b1\x7d", "pet.Dog"]
      = "The inheritance graph of 'pet.Dog' contains a cycle through 'pet.Dog'." := by
    decide +kernel
  have hsubstitute : substitute Rule.inheritanceCycle.template ["\x7b1\x7d", "pet.Dog"]
      = "The inheritance graph of '\x7b1\x7d' contains a cycle through 'pet.Dog'." := by
    decide +kernel
  refine ⟨hfill, hsubstitute, ?_⟩
  rw [hfill, hsubstitute]
  decide +kernel

end OverrideCheck
