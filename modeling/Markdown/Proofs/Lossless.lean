import Markdown.Proofs.Faults
import Markdown.Proofs.HighlightGuard
import Markdown.Proofs.Visible

/-!
# Highlighting loses nothing

The HTML of a highlighter consists of pieces: runs of code, all of one class or of none. A run is
written for HTML as it is, or it is a colour in the tags of its swatch (`Piece.html`). So tags are
nested properly, and what is visible of the pieces is the code (`visibleText_html`).

The highlighters write spans, which are such pieces already. Swatches come afterwards. They look at the
texts between tags, and the text of a span comes apart into plain runs and colours (`exists_runs`).
-/

namespace Markdown

open Html

namespace Highlight

/-! ### Pieces -/

/-- A run of code. -/
inductive Run where
  /-- Code as it is. -/
  | plain (t : Text)
  /-- A colour of three or six digits. -/
  | color (digits : Text) (size : digits.length = 3 ∨ digits.length = 6)
    (hex : ∀ d ∈ digits, Text.isHexDigit d = true)

/-- The code of a run. -/
def Run.code : Run → Text
  | .plain t => t
  | .color digits _ _ => '#' :: digits

/-- The HTML of a run. -/
def Run.html : Run → Text
  | .plain t => escape t
  | .color digits _ _ => swatch ('#' :: digits)

/-- Runs of code that belong to a class together, or to none. -/
structure Piece where
  /-- The class. -/
  label : Option SpanClass
  /-- The runs. -/
  runs : List Run

/-- The code of a piece. -/
def Piece.code (p : Piece) : Text :=
  p.runs.flatMap Run.code

/-- The HTML of a piece. -/
def Piece.html (p : Piece) : Text :=
  match p.label with
  | none => p.runs.flatMap Run.html
  | some c => wrap c (p.runs.flatMap Run.html)

/-! ### What is visible of pieces -/

theorem isTag_classTag (c : SpanClass) : IsTag (classTag c.name) := by
  refine ⟨"span class=\"syntax-".toList ++ c.name ++ ['"'], ?_, ?_⟩
  · generalize c.name = name
    unfold classTag
    repeat rw [String.toList_ofList]
    simp
  · cases c <;> decide +kernel

theorem isTag_end : IsTag "</span>".toList := by
  rw [String.toList_ofList]
  exact ⟨['/', 's', 'p', 'a', 'n'], rfl, by decide⟩

/-- The opening tag of the swatch of a colour. -/
def swatchTag (color : Text) : Text :=
  "<span class=\"color-preview\" style=\"--swatch-color: ".toList ++ color ++ "\">".toList

theorem isTag_swatchTag {color : Text} (h : '>' ∉ color) : IsTag (swatchTag color) := by
  refine ⟨"span class=\"color-preview\" style=\"--swatch-color: ".toList ++ color ++ ['"'], ?_, ?_⟩
  · unfold swatchTag
    repeat rw [String.toList_ofList]
    simp
  · simp [h]

theorem wrap_eq (c : SpanClass) (html : Text) :
    wrap c html = classTag c.name ++ (html ++ "</span>".toList) :=
  List.append_assoc _ _ _

theorem swatch_eq (color : Text) :
    swatch color = swatchTag color ++ (color ++ "</span>".toList) :=
  List.append_assoc _ _ _

theorem escapeChar_of_isHexDigit {c : Char} (h : Text.isHexDigit c = true) : escapeChar c = [c] := by
  unfold escapeChar
  split <;> first | rfl | exact absurd h (by decide)

theorem escape_digits {digits : Text} (hex : ∀ d ∈ digits, Text.isHexDigit d = true) :
    escape digits = digits := by
  induction digits with
  | nil => rfl
  | cons d digits ih =>
    obtain ⟨hd, hdigits⟩ := List.forall_mem_cons.mp hex
    rw [escape_cons, escapeChar_of_isHexDigit hd, ih hdigits]
    rfl

theorem escape_color {digits : Text} (hex : ∀ d ∈ digits, Text.isHexDigit d = true) :
    escape ('#' :: digits) = '#' :: digits := by
  rw [escape_cons, escape_digits hex]
  rfl

theorem not_mem_color {digits : Text} (hex : ∀ d ∈ digits, Text.isHexDigit d = true) :
    '>' ∉ '#' :: digits := by
  intro hmem
  rcases List.mem_cons.mp hmem with h | h
  · cases h
  · exact absurd (hex _ h) (by decide)

theorem reads_run (r : Run) : ∃ ts, Reads r.html r.code ts := by
  cases r with
  | plain t => exact ⟨_, reads_escape t⟩
  | color digits size hex =>
    have htext := reads_escape ('#' :: digits)
    rw [escape_color hex] at htext
    have hswatch := (reads_tag (isTag_swatchTag (not_mem_color hex))).append
      (htext.append (reads_tag isTag_end))
    rw [← swatch_eq, List.nil_append, List.append_nil] at hswatch
    exact ⟨_, hswatch⟩

theorem reads_wrap (c : SpanClass) {html visible : Text} {ts : List Text} (h : Reads html visible ts) :
    Reads (wrap c html) visible (classTag c.name :: (ts ++ ["</span>".toList])) := by
  have hwrap := (reads_tag (isTag_classTag c)).append (h.append (reads_tag isTag_end))
  rwa [← wrap_eq, List.nil_append, List.append_nil] at hwrap

theorem reads_piece (p : Piece) : ∃ ts, Reads p.html p.code ts := by
  obtain ⟨ts, hruns⟩ := reads_flatMap fun r (_ : r ∈ p.runs) => reads_run r
  unfold Piece.html
  split
  · exact ⟨ts, hruns⟩
  · next c _ => exact ⟨_, reads_wrap c hruns⟩

/-- What is visible of pieces is their code. -/
theorem visibleText_html (ps : List Piece) :
    visibleText (ps.flatMap Piece.html) = pure (ps.flatMap Piece.code) := by
  obtain ⟨ts, h⟩ := reads_flatMap fun p (_ : p ∈ ps) => reads_piece p
  exact h.visibleText_eq

/-! ### Colours -/

theorem swatchRule_of_ne (before : Option Char) (c : Char) (r : Text) (hc : c ≠ '#') :
    swatchRule before c r = none :=
  if_neg (by simp [hc])

/-- The rule passes over the written form of a character other than a hash: the hash in a reference
stands behind an ampersand. -/
theorem replaceFrom_escapeChar (before : Option Char) {c : Char} (hc : c ≠ '#') :
    ∃ last, ∀ r, Text.replaceFrom swatchRule before (escapeChar c ++ r) =
      escapeChar c ++ Text.replaceFrom swatchRule last r := by
  by_cases hquote : c = '\''
  · subst hquote
    obtain ⟨last, hlast⟩ := @Text.replaceFrom_of_not_mem swatchRule '#' swatchRule_of_ne (some '#')
      ['0', '3', '9', ';'] (by decide)
    refine ⟨last, fun r => ?_⟩
    have hamp : swatchRule before '&' ("#039;".toList ++ r) = none := swatchRule_of_ne _ _ _ (by decide)
    have hhash : swatchRule (some '&') '#' ("039;".toList ++ r) = none := if_neg (by decide)
    rw [String.toList_ofList] at hamp hhash
    show Text.replaceFrom swatchRule before ("&#039;".toList ++ r) = "&#039;".toList ++ _
    rw [String.toList_ofList]
    show Text.replaceFrom swatchRule before ('&' :: '#' :: (['0', '3', '9', ';'] ++ r)) = _
    have hsecond := Text.replaceFrom_cons_none hhash
    have hfirst := Text.replaceFrom_cons_none hamp
    simp only [List.cons_append, List.nil_append] at hlast hfirst hsecond ⊢
    rw [hfirst, hsecond, hlast]
  · refine Text.replaceFrom_of_not_mem swatchRule_of_ne ?_
    unfold escapeChar
    split <;> first | (rw [String.toList_ofList]; decide) | skip
    · exact absurd rfl hquote
    · simpa using hc.symm

/-- Colours at the start of a text for HTML are colours of the text. -/
theorem exists_of_escape_eq {digits rest t : Text} (hex : ∀ d ∈ digits, Text.isHexDigit d = true)
    (h : escape t = digits ++ rest) : ∃ r, t = digits ++ r ∧ rest = escape r := by
  induction digits generalizing t with
  | nil => exact ⟨t, rfl, h.symm⟩
  | cons d digits ih =>
    obtain ⟨hd, hdigits⟩ := List.forall_mem_cons.mp hex
    cases t with
    | nil => cases h
    | cons c t =>
      rcases escapeChar_eq_or c with hc | ⟨e, he⟩
      · rw [escape_cons, hc] at h
        obtain ⟨rfl, htail⟩ := List.cons.inj h
        obtain ⟨r, rfl, hr⟩ := ih hdigits htail
        exact ⟨r, rfl, hr⟩
      · rw [escape_cons, he] at h
        obtain ⟨rfl, -⟩ := List.cons.inj h
        exact absurd hd (by decide)

/-- Behind any character, a text for HTML comes apart into plain runs and colours. -/
theorem exists_runs (before : Option Char) (t : Text) :
    ∃ runs : List Run, Text.replaceFrom swatchRule before (escape t) = runs.flatMap Run.html ∧
      runs.flatMap Run.code = t := by
  induction hn : t.length using Nat.strongRecOn generalizing before t with
  | ind n ih =>
    cases t with
    | nil => exact ⟨[], by simp, rfl⟩
    | cons c r =>
      simp only [List.length_cons] at hn
      by_cases hc : c = '#'
      · subst hc
        show ∃ runs : List Run, Text.replaceFrom swatchRule before ('#' :: escape r) = _ ∧ _
        cases hrule : swatchRule before '#' (escape r) with
        | none =>
          obtain ⟨runs, hhtml, hcode⟩ := ih _ (by omega) (some '#') r rfl
          refine ⟨.plain ['#'] :: runs, ?_, ?_⟩
          · rw [Text.replaceFrom_cons_none hrule, hhtml]
            rfl
          · rw [List.flatMap_cons, hcode]
            rfl
        | some hit =>
          obtain ⟨digits, rest, -, htakes, htext, size, hex⟩ := swatchRule_eq_some hrule
          obtain ⟨u, rfl, rfl⟩ := exists_of_escape_eq hex (List.cons.inj htakes.split).2
          obtain ⟨runs, hhtml, hcode⟩ := ih _ (by simp at hn ⊢; omega)
            ('#' :: (escape (digits ++ u)).take hit.extra).getLast? u rfl
          refine ⟨.color digits size hex :: runs, ?_, ?_⟩
          · rw [Text.replaceFrom_cons_some hrule, htakes.drop, hhtml, htext]
            rfl
          · rw [List.flatMap_cons, hcode]
            rfl
      · obtain ⟨last, hlast⟩ := replaceFrom_escapeChar before hc
        obtain ⟨runs, hhtml, hcode⟩ := ih _ (by omega) last r rfl
        refine ⟨.plain [c] :: runs, ?_, ?_⟩
        · rw [escape_cons, hlast, hhtml]
          simp [Run.html]
        · rw [List.flatMap_cons, hcode]
          rfl

/-! ### Spans -/

/-- Without swatches, the spans are the pieces. -/
theorem exists_pieces_spansHtml (spans : List Span) :
    ∃ ps : List Piece, spansHtml spans = ps.flatMap Piece.html ∧
      ps.flatMap Piece.code = spansCode spans := by
  induction spans with
  | nil => exact ⟨[], rfl, rfl⟩
  | cons s spans ih =>
    obtain ⟨ps, hhtml, hcode⟩ := ih
    have hfirst : spanHtml s = Piece.html ⟨s.label, [.plain s.text]⟩ := by
      unfold spanHtml Piece.html
      cases s.label <;> simp [Run.html]
    refine ⟨⟨s.label, [.plain s.text]⟩ :: ps, ?_, ?_⟩
    · rw [List.flatMap_cons, ← hhtml, ← hfirst]
      rfl
    · rw [List.flatMap_cons, hcode]
      show _ = s.text ++ spansCode spans
      simp [Piece.code, Run.code]

/-- With swatches, neighbouring spans without a class make one piece: a colour may go over both. -/
theorem exists_pieces_decorateColors (t : Text) (spans : List Span) :
    ∃ ps : List Piece, decorateColors (escape t ++ spansHtml spans) = ps.flatMap Piece.html ∧
      ps.flatMap Piece.code = t ++ spansCode spans := by
  have hnil : Text.replaceBy swatchRule [] = [] := Text.replaceFrom_nil _ _
  unfold decorateColors
  induction spans generalizing t with
  | nil =>
    obtain ⟨runs, hhtml, hcode⟩ := exists_runs none t
    refine ⟨[⟨none, runs⟩], ?_, ?_⟩
    · rw [spansHtml, List.flatMap_nil, List.append_nil, mapTexts_of_not_mem hnil (not_mem_escape t)]
      simpa [Piece.html, Text.replaceBy_eq_replaceFrom] using hhtml
    · simpa [Piece.code, spansCode] using hcode
  | cons s spans ih =>
    obtain ⟨label, u⟩ := s
    cases label with
    | none =>
      obtain ⟨ps, hhtml, hcode⟩ := ih (t ++ u)
      refine ⟨ps, ?_, ?_⟩
      · rw [← hhtml, escape_append, List.append_assoc]
        rfl
      · rw [hcode, List.append_assoc]
        rfl
    | some c =>
      obtain ⟨before, hbefore, hbeforeCode⟩ := exists_runs none t
      obtain ⟨runs, hruns, hrunsCode⟩ := exists_runs none u
      obtain ⟨ps, hhtml, hcode⟩ := ih []
      refine ⟨⟨none, before⟩ :: ⟨some c, runs⟩ :: ps, ?_, ?_⟩
      · have hsplit : escape t ++ spansHtml (⟨some c, u⟩ :: spans) =
            escape t ++ (classTag c.name ++ (escape u ++ ("</span>".toList ++ spansHtml spans))) := by
          show escape t ++ (wrap c (escape u) ++ spansHtml spans) = _
          rw [wrap_eq, List.append_assoc, List.append_assoc]
        rw [hsplit, mapTexts_text hnil (not_mem_escape t) (isTag_classTag c),
          mapTexts_text hnil (not_mem_escape u) isTag_end]
        rw [escape_nil, List.nil_append] at hhtml
        rw [hhtml, Text.replaceBy_eq_replaceFrom, Text.replaceBy_eq_replaceFrom, hbefore, hruns,
          List.flatMap_cons, List.flatMap_cons]
        simp only [Piece.html, wrap_eq, List.append_assoc]
      · rw [List.flatMap_cons, List.flatMap_cons, hcode]
        show before.flatMap Run.code ++ (runs.flatMap Run.code ++ _) = _
        rw [hbeforeCode, hrunsCode]
        rfl

/-! ### All languages -/

/-- Without swatches, highlighting writes spans of the code. -/
theorem isSpanned_highlight (language : Option Text) (code : Text) :
    IsSpanned (Registry.builtin.highlight language none false code).value code := by
  unfold Registry.highlight
  split
  · next hempty =>
    obtain rfl := List.isEmpty_iff.mp hempty
    exact isSpanned_nil
  · dsimp only [Report.value_bind, Report.value_pure]
    cases hfind : Registry.builtin.find? language with
    | none => exact isSpanned_escape code
    | some h =>
      obtain ⟨e, he, rfl⟩ := Option.map_eq_some_iff.mp hfind
      obtain ⟨spans, hspans, hcode⟩ := spans_builtin e (List.mem_of_find?_eq_some he) code
      exact ⟨spans, congrArg Report.value hspans, hcode⟩

/-- Swatches come last. -/
theorem value_highlight_swatches (language : Option Text) (code : Text) :
    (Registry.builtin.highlight language none true code).value =
      decorateColors (Registry.builtin.highlight language none false code).value := by
  unfold Registry.highlight
  split
  · simp [decorateColors, mapTexts, parts]
  · cases Registry.builtin.find? language <;> rfl

/-- Highlighting answers with pieces that make up the code. -/
theorem exists_pieces_highlight (language : Option Text) (swatches : Bool) (code : Text) :
    ∃ ps : List Piece,
      (Registry.builtin.highlight language none swatches code).answer =
        .ok (ps.flatMap Piece.html) ∧
      ps.flatMap Piece.code = code := by
  obtain ⟨spans, hhtml, hcode⟩ := isSpanned_highlight language code
  have hvalue : ∃ ps : List Piece,
      (Registry.builtin.highlight language none swatches code).value = ps.flatMap Piece.html ∧
        ps.flatMap Piece.code = code := by
    cases swatches with
    | false =>
      rw [hhtml, ← hcode]
      exact exists_pieces_spansHtml spans
    | true =>
      rw [value_highlight_swatches, hhtml, ← hcode]
      exact exists_pieces_decorateColors [] spans
  obtain ⟨ps, hps, hpsCode⟩ := hvalue
  refine ⟨ps, ?_, hpsCode⟩
  rw [(isClean_highlight language swatches code).answer_eq, hps]

/-- **Highlighting loses nothing.** For any code in any language, known or not, with swatches or
without, there is HTML. It is that of some pieces: escaped text in the tags of classes and swatches,
properly nested. The pieces make up the code, and without its tags and with its references replaced
the HTML is the code again. -/
theorem Registry.highlight_lossless (language : Option Text) (swatches : Bool) (code : Text) :
    ∃ ps : List Piece,
      (builtin.highlight language none swatches code).answer = .ok (ps.flatMap Piece.html) ∧
      ps.flatMap Piece.code = code ∧
      visibleText (ps.flatMap Piece.html) = pure code := by
  obtain ⟨ps, hanswer, hcode⟩ := exists_pieces_highlight language swatches code
  exact ⟨ps, hanswer, hcode, by rw [visibleText_html, hcode]⟩

end Highlight

end Markdown
