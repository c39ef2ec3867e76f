import OverrideCheck.Command.Session
import OverrideCheck.Proofs.Diagnostic.Filling

/-!
# `OverrideCheck.Proofs.Report.Decoration`: colours change nothing but the colours

A report can be written with colours or without. The two texts are made
by the same functions, but not from each other: every part that has a
colour is painted, or not, where it is written. This module shows that
the text without colours is the one with colours after
`Text.stripColors`, which deletes every sequence from an escape
character and a bracket up to the first `m`, and knows nothing of styles
or reports.

That needs a condition on the strings of a report: a name from a file
may itself hold an escape character, and then deleting sequences would
delete parts of the name. Without one (`Text.Plain`) brackets and the
letter `m` do no harm, because no sequence begins in a plain text.

`Decorates` is what all parts of a report have in common. It says of a
coloured text what deleting leaves of it *in front of any other text*,
and so it is kept by putting texts together (`Decorates.append`,
`Decorates.join`). The rest of the module goes through the parts, up to
`stripColors_render`.
-/

set_option autoImplicit false

namespace OverrideCheck

namespace Text

/-! ### Deleting colour sequences -/

/-- The character that begins a sequence. -/
def esc : Char := '\x1b'

/-- Whether what comes behind an escape character makes a sequence of
it: a bracket, and an `m` that ends it. -/
def opens (rest : List Char) : Bool := rest.head? == some '[' && rest.contains 'm'

/-- Delete all sequences, starting inside one or not. -/
def stripFrom : Bool → List Char → List Char
  | _, [] => []
  | true, c :: rest => stripFrom (c != 'm') rest
  | false, c :: rest =>
    if c = esc ∧ opens rest = true then stripFrom true rest else c :: stripFrom false rest

/-- Delete all sequences. -/
def stripColors (text : String) : String := String.ofList (stripFrom false text.toList)

/-- The text has no escape character. -/
def Plain (text : String) : Prop := esc ∉ text.toList

theorem stripFrom_append_of_not_mem {front : List Char} (h : esc ∉ front) (rest : List Char) :
    stripFrom false (front ++ rest) = front ++ stripFrom false rest := by
  induction front with
  | nil => rfl
  | cons c front ih =>
    rw [List.mem_cons, not_or] at h
    obtain ⟨hc, hfront⟩ := h
    rw [List.cons_append, stripFrom, if_neg fun hopen => hc hopen.1.symm, ih hfront]
    rfl

/-- A sequence ends at its first `m`. -/
theorem stripFrom_inside {codes : List Char} (h : 'm' ∉ codes) (rest : List Char) :
    stripFrom true (codes ++ 'm' :: rest) = stripFrom false rest := by
  induction codes with
  | nil => rfl
  | cons c codes ih =>
    rw [List.mem_cons, not_or] at h
    obtain ⟨hc, hcodes⟩ := h
    have hinside : (c != 'm') = true := bne_iff_ne.2 (Ne.symm hc)
    rw [List.cons_append, stripFrom, hinside, ih hcodes]

theorem stripFrom_sequence {codes : List Char} (h : 'm' ∉ codes) (rest : List Char) :
    stripFrom false (esc :: '[' :: (codes ++ 'm' :: rest)) = stripFrom false rest := by
  have hopens : opens ('[' :: (codes ++ 'm' :: rest)) = true := by simp [opens]
  rw [stripFrom, if_pos ⟨rfl, hopens⟩]
  have hcodes : 'm' ∉ '[' :: codes := by simp [h]
  exact stripFrom_inside hcodes rest

/-! ### Plain texts -/

theorem plain_ofList {chars : List Char} (h : chars.all (· != esc) = true) :
    Plain (String.ofList chars) := by
  intro hmem
  rw [String.toList_ofList] at hmem
  simpa using List.all_eq_true.1 h esc hmem

theorem plain_append_iff {a b : String} : Plain (a ++ b) ↔ Plain a ∧ Plain b := by
  rw [Plain, String.toList_append, List.mem_append]
  exact not_or

theorem Plain.append {a b : String} (ha : Plain a) (hb : Plain b) : Plain (a ++ b) :=
  plain_append_iff.2 ⟨ha, hb⟩

theorem Plain.left {a b : String} (h : Plain (a ++ b)) : Plain a := (plain_append_iff.1 h).1

theorem Plain.right {a b : String} (h : Plain (a ++ b)) : Plain b := (plain_append_iff.1 h).2

theorem plain_toString (n : Nat) : Plain (toString n) := by
  intro hmem
  have hmem' : esc ∈ Nat.toDigits 10 n := by simpa using hmem
  have hdigit : esc.isDigit = true := Nat.isDigit_of_mem_toDigits (by decide) (by decide) hmem'
  cases hdigit

/-- In a plain text there is nothing that a painted text would have to
be painted again behind. -/
theorem replaceAll_reset {text : String} (h : Plain text) (new : String) :
    replaceAll text Style.reset new = text := by
  have habsent : ¬ Style.reset.toList <:+: text.toList := by
    intro hwithin
    exact h (hwithin.subset (List.mem_cons_self (l := ['[', '0', 'm'])))
  rw [replaceAll, replaceFrom_of_not_infix habsent, String.ofList_toList]

end Text

open Text

/-! ### Texts with and without colours -/

/-- The first text is the second one with colours. The second is plain,
and it is what is left of the first, whatever comes behind. -/
structure Decorates (colored plain : String) : Prop where
  isPlain : Plain plain
  strip_append : ∀ rest, stripColors (colored ++ rest) = plain ++ stripColors rest

theorem decorates_self {text : String} (h : Plain text) : Decorates text text where
  isPlain := h
  strip_append rest := by
    rw [stripColors, String.toList_append, stripFrom_append_of_not_mem h, String.ofList_append,
      String.ofList_toList, stripColors]

theorem decorates_ofList {chars : List Char} (h : chars.all (· != esc) = true) :
    Decorates (String.ofList chars) (String.ofList chars) :=
  decorates_self (plain_ofList h)

namespace Decorates

variable {a b c d : String}

theorem append (h : Decorates a b) (h' : Decorates c d) : Decorates (a ++ c) (b ++ d) where
  isPlain := h.isPlain.append h'.isPlain
  strip_append rest := by
    rw [String.append_assoc, h.strip_append, h'.strip_append, String.append_assoc]

theorem join {α : Type} {f g : α → String} {xs : List α} (h : ∀ x ∈ xs, Decorates (f x) (g x)) :
    Decorates (String.join (xs.map f)) (String.join (xs.map g)) := by
  induction xs with
  | nil => exact decorates_ofList rfl
  | cons x xs ih =>
    rw [List.map_cons, List.map_cons, String.join_cons, String.join_cons]
    exact (h x List.mem_cons_self).append (ih fun y hy => h y (List.mem_cons_of_mem x hy))

theorem strip_eq (h : Decorates a b) : stripColors a = b := by
  have hnothing := h.strip_append ""
  have hempty : stripColors "" = "" := rfl
  rw [hempty, String.append_empty, String.append_empty] at hnothing
  exact hnothing

end Decorates

/-- A sequence decorates nothing at all. -/
theorem decorates_sequence {codes : String} (h : 'm' ∉ codes.toList) :
    Decorates ("\x1b[" ++ codes ++ "m") "" where
  isPlain := plain_ofList rfl
  strip_append rest := by
    have hchars : ("\x1b[" ++ codes ++ "m" ++ rest).toList
        = esc :: '[' :: (codes.toList ++ 'm' :: rest.toList) := by
      have hopen : "\x1b[".toList = [esc, '['] := rfl
      have hclose : "m".toList = ['m'] := rfl
      simp [hopen, hclose]
    rw [stripColors, hchars, stripFrom_sequence h, String.empty_append, stripColors]

namespace Style

/-- The codes of a colour do not end their sequence. -/
theorem end_not_mem_codes (s : Style) : 'm' ∉ s.codes.toList := by
  have habsent {chars : List Char} (h : chars.all (· != 'm') = true) :
      'm' ∉ (String.ofList chars).toList := by
    intro hmem
    rw [String.toList_ofList] at hmem
    simpa using List.all_eq_true.1 h 'm' hmem
  cases s with
  | severity severity => cases severity <;> exact habsent rfl
  | _ => exact habsent rfl

theorem decorates_start (s : Style) : Decorates s.start "" :=
  decorates_sequence s.end_not_mem_codes

theorem decorates_reset : Decorates reset "" := by
  have hcodes : 'm' ∉ "0".toList := by decide
  exact decorates_sequence hcodes

theorem decorates_apply (s : Style) {text : String} (h : Plain text) :
    Decorates (s.apply text) text := by
  have hparts := (s.decorates_start.append (decorates_self h)).append decorates_reset
  rw [String.empty_append, String.append_empty] at hparts
  rw [apply, replaceAll_reset h]
  exact hparts

theorem decorates_paint (s : Style) {text : String} (h : Plain text) :
    Decorates (s.paint true text) (s.paint false text) :=
  s.decorates_apply h

/-- A painted text is not plain. -/
theorem not_plain_paint (s : Style) (text : String) : ¬ Plain (s.paint true text) := by
  have hopen : "\x1b[".toList = [esc, '['] := rfl
  simp [Plain, paint, apply, start, hopen]

end Style

/-! ### The parts of an audit -/

/-- The strings of a note. -/
def Related.strings (r : Related) : List String := [r.location, r.message]

/-- The strings of a diagnostic and its notes. -/
def Diagnostic.strings (d : Diagnostic) : List String :=
  d.location :: d.message :: d.related.flatMap Related.strings

/-- The strings of an override. -/
def ValidOverride.strings (o : ValidOverride) : List String := [o.typeFqn, o.member, o.overrides]

/-- The strings of an audit. -/
def AuditReport.strings (r : AuditReport) : List String :=
  r.assembly :: (r.findings.diagnostics.flatMap Diagnostic.strings ++
    r.findings.overrides.flatMap ValidOverride.strings)

theorem Related.decorates_render {r : Related} (h : ∀ t ∈ r.strings, Plain t) :
    Decorates (r.render true) (r.render false) := by
  have hlocation : Plain r.location := h _ (by simp [strings])
  have hmessage : Plain r.message := h _ (by simp [strings])
  have hplace := Style.location.decorates_paint hlocation
  exact (((decorates_ofList rfl).append hplace).append (decorates_ofList rfl)).append
    (decorates_self hmessage)

theorem Severity.plain_name (s : Severity) : Plain s.name := by
  cases s <;> exact plain_ofList rfl

namespace Diagnostic

theorem decorates_renderCode (code : Nat) :
    Decorates (renderCode true code) (renderCode false code) := by
  unfold renderCode
  split
  · exact decorates_ofList rfl
  · have hlabel : Plain ("CV" ++ toString code) := (plain_ofList rfl).append (plain_toString code)
    exact (decorates_ofList rfl).append (Style.code.decorates_paint hlabel)

theorem decorates_render {d : Diagnostic} (h : ∀ t ∈ d.strings, Plain t) :
    Decorates (d.render true) (d.render false) := by
  obtain ⟨hlocation, htexts⟩ := List.forall_mem_cons.1 h
  obtain ⟨hmessage, hrelated⟩ := List.forall_mem_cons.1 htexts
  have hplace := Style.location.decorates_paint hlocation
  have hseverity := (Style.severity d.severity).decorates_paint d.severity.plain_name
  have hnotes : Decorates (String.join (d.related.map fun r => "\n" ++ r.render true))
      (String.join (d.related.map fun r => "\n" ++ r.render false)) := by
    refine Decorates.join fun r hr => (decorates_ofList rfl).append (Related.decorates_render ?_)
    intro t ht
    exact hrelated t (List.mem_flatMap.2 ⟨r, hr, ht⟩)
  have hdash : Decorates " - " " - " := decorates_ofList rfl
  have hcolon : Decorates ": " ": " := decorates_ofList rfl
  have hhead := ((hplace.append hdash).append hseverity).append (decorates_renderCode d.code)
  exact ((hhead.append hcolon).append (decorates_self hmessage)).append hnotes

theorem decorates_renderAll {ds : List Diagnostic} (h : ∀ d ∈ ds, ∀ t ∈ d.strings, Plain t) :
    Decorates (renderAll true ds) (renderAll false ds) :=
  Decorates.join fun d hd => (decorates_render (h d hd)).append (decorates_ofList rfl)

/-- There is something to read as soon as there is a diagnostic, with
colours or without. -/
theorem renderAll_eq_empty_iff (color : Bool) (ds : List Diagnostic) :
    renderAll color ds = "" ↔ ds = [] := by
  cases ds with
  | nil => simp [renderAll]
  | cons d ds => simp [renderAll]

end Diagnostic

namespace AuditReport

theorem decorates_renderErrors (n : Nat) : Decorates (renderErrors true n) (renderErrors false n) := by
  unfold renderErrors
  split
  · exact decorates_ofList rfl
  · exact (decorates_ofList rfl).append (Style.total.decorates_paint (plain_ofList rfl))
  · have htotal : Plain ("Found " ++ toString n ++ " errors.") :=
      ((plain_ofList rfl).append (plain_toString n)).append (plain_ofList rfl)
    exact (decorates_ofList rfl).append (Style.total.decorates_paint htotal)

theorem decorates_renderSummary {r : AuditReport} (h : Plain r.assembly) :
    Decorates (r.renderSummary true) (r.renderSummary false) := by
  have hname : Plain ("Checked " ++ r.assembly ++ ": ") :=
    ((plain_ofList rfl).append h).append (plain_ofList rfl)
  have hoverrides : Plain (toString r.findings.overrides.length) := plain_toString _
  have hcovariant : Plain (toString (r.findings.overrides.countP (·.covariant))) :=
    plain_toString _
  have hcounts : Plain ("Checked " ++ r.assembly ++ ": " ++ toString r.findings.overrides.length
      ++ " override(s), " ++ toString (r.findings.overrides.countP (·.covariant))
      ++ " covariant.") :=
    (((hname.append hoverrides).append (plain_ofList rfl)).append hcovariant).append
      (plain_ofList rfl)
  exact (decorates_self hcounts).append (decorates_renderErrors r.errorCount)

theorem decorates_render {r : AuditReport} (h : ∀ t ∈ r.strings, Plain t) :
    Decorates (r.render true) (r.render false) := by
  obtain ⟨hassembly, htexts⟩ := List.forall_mem_cons.1 h
  have hfound := Diagnostic.decorates_renderAll fun d hd t ht =>
    htexts t (List.mem_append_left _ (List.mem_flatMap.2 ⟨d, hd, ht⟩))
  -- Whether an empty line follows does not depend on the colours.
  have hline : Decorates
      (if (Diagnostic.renderAll true r.findings.diagnostics).isEmpty then "" else "\n")
      (if (Diagnostic.renderAll false r.findings.diagnostics).isEmpty then "" else "\n") := by
    simp only [String.isEmpty_iff, Diagnostic.renderAll_eq_empty_iff]
    split <;> exact decorates_ofList rfl
  exact ((hfound.append hline).append (decorates_renderSummary hassembly)).append
    (decorates_ofList rfl)

end AuditReport

/-! ### The parts of an answer -/

/-- The strings of a reason: names, and types as they are rendered. A
named type is rendered as its name, so any text may be among them. -/
def Reason.strings : Reason → List String
  | voidMismatch _ => []
  | malformedType t | walkLimitExceeded t => [t.render]
  | mapInvariant a b | unionNotNarrowable a b | intersectionNotCovariant a b
  | primitiveNotNarrowable a b | shapeMismatch a b | arrayElementMismatch a b =>
    [a.render, b.render]
  | unresolvedType fqn | inheritanceCycle fqn => [fqn]
  | notASubclass a b | interfaceNotExtended a b | interfaceNotImplemented a b => [a, b]
  | kindMismatch a _ b _ => [a, b]

/-- The strings of an answer. -/
def QueryReport.strings (r : QueryReport) : List String :=
  TypeRef.renderOptional r.sub :: TypeRef.renderOptional r.sup ::
    r.explanation.reasons.flatMap Reason.strings

theorem plain_quoted {text : String} (h : Plain text) : Plain (quoted text) :=
  ((plain_ofList rfl).append h).append (plain_ofList rfl)

theorem plain_relating {sub words sup : String} (hsub : Plain sub) (hwords : Plain words)
    (hsup : Plain sup) : Plain (relating sub words sup) :=
  ((plain_quoted hsub).append hwords).append (plain_quoted hsup)

theorem TypeKind.plain_name (k : TypeKind) : Plain k.name := by
  cases k <;> exact plain_ofList rfl

theorem Reason.plain_message {r : Reason} (h : ∀ t ∈ r.strings, Plain t) : Plain r.message := by
  cases r with
  | voidMismatch side => cases side <;> exact plain_ofList rfl
  | malformedType t =>
    have ht : Plain t.render := h _ (by simp [strings])
    exact (plain_quoted ht).append (plain_ofList rfl)
  | walkLimitExceeded t =>
    have ht : Plain t.render := h _ (by simp [strings])
    exact (plain_ofList rfl).append (plain_quoted ht)
  | unresolvedType fqn =>
    have hfqn : Plain fqn := h _ (by simp [strings])
    exact ((plain_ofList rfl).append (plain_quoted hfqn)).append (plain_ofList rfl)
  | inheritanceCycle fqn =>
    have hfqn : Plain fqn := h _ (by simp [strings])
    exact (plain_ofList rfl).append (plain_quoted hfqn)
  | shapeMismatch a b =>
    have ha : Plain a.render := h _ (by simp [strings])
    have hb : Plain b.render := h _ (by simp [strings])
    exact (plain_relating ha (plain_ofList rfl) hb).append (plain_ofList rfl)
  | mapInvariant a b | unionNotNarrowable a b | intersectionNotCovariant a b
  | primitiveNotNarrowable a b | arrayElementMismatch a b =>
    have ha : Plain a.render := h _ (by simp [strings])
    have hb : Plain b.render := h _ (by simp [strings])
    exact (plain_ofList rfl).append (plain_relating ha (plain_ofList rfl) hb)
  | notASubclass a b | interfaceNotExtended a b | interfaceNotImplemented a b =>
    have ha : Plain a := h _ (by simp [strings])
    have hb : Plain b := h _ (by simp [strings])
    exact (plain_ofList rfl).append (plain_relating ha (plain_ofList rfl) hb)
  | kindMismatch a k b l =>
    have ha : Plain a := h _ (by simp [strings])
    have hb : Plain b := h _ (by simp [strings])
    have hwords : Plain (" cannot narrow " ++ l.name ++ " ") :=
      ((plain_ofList rfl).append l.plain_name).append (plain_ofList rfl)
    exact (k.plain_name.append (plain_ofList rfl)).append (plain_relating ha hwords hb)

namespace QueryReport

theorem decorates_renderAnswer (allowed : Bool) :
    Decorates (renderAnswer true allowed) (renderAnswer false allowed) := by
  unfold renderAnswer
  split
  · exact Style.allowed.decorates_paint (plain_ofList rfl)
  · exact Style.rejected.decorates_paint (plain_ofList rfl)

theorem decorates_render {r : QueryReport} (h : ∀ t ∈ r.strings, Plain t) :
    Decorates (r.render true) (r.render false) := by
  obtain ⟨hsub, htexts⟩ := List.forall_mem_cons.1 h
  obtain ⟨hsup, hreasons⟩ := List.forall_mem_cons.1 htexts
  have hsides : Plain (TypeRef.renderOptional r.sub ++ " -> " ++ TypeRef.renderOptional r.sup
      ++ ": ") :=
    ((hsub.append (plain_ofList rfl)).append hsup).append (plain_ofList rfl)
  have hlines : Decorates
      (String.join (r.explanation.reasons.map fun reason => "  " ++ reason.message ++ "\n"))
      (String.join (r.explanation.reasons.map fun reason => "  " ++ reason.message ++ "\n")) := by
    refine Decorates.join fun reason hreason => decorates_self ?_
    have hmessage : Plain reason.message := Reason.plain_message fun t ht =>
      hreasons t (List.mem_flatMap.2 ⟨reason, hreason, ht⟩)
    exact ((plain_ofList rfl).append hmessage).append (plain_ofList rfl)
  exact (((decorates_self hsides).append (decorates_renderAnswer r.explanation.allowed)).append
    (decorates_ofList rfl)).append hlines

end QueryReport

/-! ### Reports -/

theorem Diagnostic.not_plain_renderAll (d : Diagnostic) (ds : List Diagnostic) :
    ¬ Plain (renderAll true (d :: ds)) := by
  intro h
  rw [renderAll, List.map_cons, String.join_cons, render] at h
  -- The location of the first diagnostic is painted, and comes first.
  exact Style.location.not_plain_paint d.location h.left.left.left.left.left.left.left.left

theorem AuditReport.eq_zero_of_plain_renderErrors {n : Nat} (h : Plain (renderErrors true n)) :
    n = 0 := by
  unfold renderErrors at h
  split at h
  · rfl
  · exact absurd h.right (Style.total.not_plain_paint _)
  · exact absurd h.right (Style.total.not_plain_paint _)

theorem QueryReport.not_plain_renderAnswer (allowed : Bool) : ¬ Plain (renderAnswer true allowed) := by
  unfold renderAnswer
  split
  · exact Style.allowed.not_plain_paint _
  · exact Style.rejected.not_plain_paint _

namespace Report

/-- The strings of a report. -/
def strings : Report → List String
  | audit r => r.strings
  | query r => r.strings

/-- The report has no part with a colour: nothing was found. -/
def Unpainted : Report → Prop
  | audit r => r.findings.diagnostics = [] ∧ r.errorCount = 0
  | query _ => False

theorem decorates_render {r : Report} (h : ∀ t ∈ r.strings, Plain t) :
    Decorates (r.render true) (r.render false) := by
  cases r with
  | audit r => exact AuditReport.decorates_render h
  | query r => exact QueryReport.decorates_render h

theorem unpainted_of_plain {r : Report} (h : Plain (r.render true)) : r.Unpainted := by
  cases r with
  | audit r =>
    rw [render, AuditReport.render] at h
    have hfound : Plain (Diagnostic.renderAll true r.findings.diagnostics) := h.left.left.left
    have hsummary : Plain (r.renderSummary true) := h.left.right
    refine ⟨?_, AuditReport.eq_zero_of_plain_renderErrors hsummary.right⟩
    cases hds : r.findings.diagnostics with
    | nil => rfl
    | cons d ds =>
      rw [hds] at hfound
      exact absurd hfound (Diagnostic.not_plain_renderAll d ds)
  | query r =>
    rw [render, QueryReport.render] at h
    exact absurd h.left.left.right (QueryReport.not_plain_renderAnswer r.explanation.allowed)

theorem render_eq_of_unpainted {r : Report} (h : r.Unpainted) : r.render true = r.render false := by
  cases r with
  | audit r =>
    obtain ⟨hfound, hnone⟩ := h
    have hfound' : Diagnostic.renderAll true r.findings.diagnostics
        = Diagnostic.renderAll false r.findings.diagnostics := by
      rw [(Diagnostic.renderAll_eq_empty_iff true _).2 hfound,
        (Diagnostic.renderAll_eq_empty_iff false _).2 hfound]
    have herrors : AuditReport.renderErrors true r.errorCount
        = AuditReport.renderErrors false r.errorCount := by
      rw [hnone]
      rfl
    have hsummary : r.renderSummary true = r.renderSummary false := congrArg (_ ++ ·) herrors
    rw [render, render, AuditReport.render, AuditReport.render, hfound', hsummary]
  | query r => exact h.elim

/-- Deleting the colour sequences of a report gives the report without
colours, if none of its strings has an escape character. Only a report
of no findings has no colours to delete. -/
theorem stripColors_render (r : Report) (h : ∀ t ∈ r.strings, Plain t) :
    stripColors (r.render true) = r.render false ∧
      (r.render true = r.render false ↔ r.Unpainted) := by
  have hdecorates := decorates_render h
  refine ⟨hdecorates.strip_eq, ?_, render_eq_of_unpainted⟩
  intro heq
  have hplain : Plain (r.render true) := by
    rw [heq]
    exact hdecorates.isPlain
  exact unpainted_of_plain hplain

/-- Two diagnostics whose texts read like parts of a colour sequence,
one of them with a note, and an override. -/
def kennelReport : Report :=
  .audit {
    assembly := "pet",
    findings := {
      diagnostics := [
        { location := "pet.Kennel#mate", message := "[31m is no colour", code := 5005,
          related := [{ location := "pet.Home#mate", message := "[0m" }] },
        { location := "", message := "m", severity := .warning, code := 0 }],
      overrides := [
        { typeFqn := "pet.Kennel", member := "name", overrides := "pet.Home", covariant := true }] } }

theorem stripColors_render_kennel :
    (∀ t ∈ kennelReport.strings, Plain t) ∧
      stripColors (kennelReport.render true) = kennelReport.render false ∧
      kennelReport.render true ≠ kennelReport.render false := by
  have hplain : ∀ t ∈ kennelReport.strings, Plain t := by
    show ∀ t ∈ ["pet", "pet.Kennel#mate", "[31m is no colour", "pet.Home#mate", "[0m", "", "m",
      "pet.Kennel", "name", "pet.Home"], Plain t
    repeat refine List.forall_mem_cons.2 ⟨plain_ofList rfl, ?_⟩
    exact List.forall_mem_nil _
  obtain ⟨hstrip, hpainted⟩ := stripColors_render kennelReport hplain
  refine ⟨hplain, hstrip, ?_⟩
  intro heq
  obtain ⟨hfound, -⟩ := hpainted.1 heq
  cases hfound

end Report

end OverrideCheck
