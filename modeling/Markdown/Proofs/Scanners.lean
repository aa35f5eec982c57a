import Markdown.Proofs.Search
import Markdown.Proofs.Spans

/-!
# Scanners tile the code

The scanners for scripts, shell, style sheets and HTML cut code into segments, so that nothing can
be lost between two spans. What is left to show is that no step counts characters that are not
there: every way to find the end of a span, in unterminated strings, comments and templates too,
stays inside the code (`extra_step_le`). In HTML the bodies of style sheets and scripts are left to
other scanners; there the count of what is left of the body must stay inside what is left of the
text (`Html.Mode.Fits`), and each step keeps it so (`Html.keeps_step`).

`Text.Scan` is the run of a scanner whose steps all stay inside the text. `Highlight.scanners_tile`
says that each scanner makes such a run, and that its spans make up the code.
-/

namespace Markdown

namespace Text

variable {σ α : Type}

/-- A run of a scanner over a text: every step stays inside the text, and the next one starts behind
the segment that it has found. -/
inductive Scan (step : σ → Char → Text → Cut σ α) : σ → Text → List (Segment α) → Prop where
  /-- The text has ended. -/
  | ended (s : σ) : Scan step s [] []
  /-- A segment, and the run behind it. -/
  | next {s : σ} {c : Char} {r : Text} {segments : List (Segment α)}
      (inside : (step s c r).extra ≤ r.length)
      (run : Scan step (step s c r).state (r.drop (step s c r).extra) segments) :
      Scan step s (c :: r) (⟨(step s c r).label, c :: r.take (step s c r).extra⟩ :: segments)

variable {step : σ → Char → Text → Cut σ α}

/-- A run takes at most one step for each character. -/
theorem Scan.length_le {s : σ} {t : Text} {segments : List (Segment α)}
    (h : Scan step s t segments) : segments.length ≤ t.length := by
  induction h with
  | ended s => rfl
  | next inside run ih =>
    simp only [List.length_cons, List.length_drop] at ih ⊢
    omega

/-- The steps of a scanner stay inside every text that fits the state, and what they leave fits the
state behind them. -/
def Keeps (step : σ → Char → Text → Cut σ α) (fits : σ → Text → Prop) : Prop :=
  ∀ s c r, fits s (c :: r) →
    (step s c r).extra ≤ r.length ∧ fits (step s c r).state (r.drop (step s c r).extra)

/-- Cutting a text that fits the state is a run. -/
theorem Keeps.scan_segment {fits : σ → Text → Prop} (hkeeps : Keeps step fits) {s : σ} {t : Text}
    (h : fits s t) : Scan step s t (segment step s t) := by
  induction hn : t.length using Nat.strongRecOn generalizing s t with
  | ind n ih =>
    cases t with
    | nil =>
      rw [segment_nil]
      exact .ended s
    | cons c r =>
      obtain ⟨hinside, hfits⟩ := hkeeps s c r h
      rw [segment_cons]
      refine .next hinside (ih _ ?_ hfits rfl)
      simp only [List.length_cons, List.length_drop] at hn ⊢
      omega

/-- A scanner whose steps stay inside every text. -/
theorem keeps_of_extra_le (h : ∀ s c r, (step s c r).extra ≤ r.length) :
    Keeps step fun _ _ => True :=
  fun s c r _ => ⟨h s c r, trivial⟩

/-! ### Prefixes -/

theorem length_le_of_isPrefixOf {s t : Text} (h : s.isPrefixOf t = true) :
    s.length ≤ t.length :=
  (List.isPrefixOf_iff_prefix.mp h).length_le

end Text

namespace Highlight

open Text (Keeps Scan)

/-! ### Lengths -/

theorem runLength_le (p : Char → Bool) (t : Text) : runLength p t ≤ t.length :=
  (List.takeWhile_sublist p).length_le

theorem quotedLength_le (escapes lines : Bool) (quote : Char) (t : Text) :
    quotedLength escapes lines quote t ≤ t.length := by
  fun_induction quotedLength escapes lines quote t <;>
    simp only [List.length_cons, List.length_nil] at * <;> omega

theorem lengthThrough_le (mark t : Text) : lengthThrough mark t ≤ t.length := by
  unfold lengthThrough
  split
  · next before rest hcut =>
    rw [Text.cut?_eq_some hcut, List.length_append, List.length_append]
    omega
  · rfl

/-! ### JavaScript and TypeScript -/

namespace Script

theorem templateLength_le (depth : Nat) (t : Text) : templateLength depth t ≤ t.length := by
  fun_induction templateLength depth t <;>
    simp only [List.length_cons, List.length_nil] at * <;> omega

theorem regexLength_le (inClass : Bool) (t : Text) : regexLength inClass t ≤ t.length := by
  fun_induction regexLength inClass t with
  | case7 _ _ r =>
    have := runLength_le Text.isLetter r
    simp only [List.length_cons]
    omega
  | _ => simp only [List.length_cons, List.length_nil] at *; omega

theorem commentLength_le (r : Text) : commentLength r ≤ r.length := by
  unfold commentLength
  split
  · next t =>
    have := lengthThrough_le "*/".toList t
    simp only [List.length_cons]
    omega
  · exact runLength_le _ r

theorem markedLength_le (mark digit : Char → Bool) (t : Text) :
    markedLength mark digit t ≤ t.length := by
  unfold markedLength
  split
  · next x r =>
    have := runLength_le digit r
    dsimp only
    split
    · simp only [List.length_cons]
      omega
    · exact Nat.zero_le _
  · exact Nat.zero_le _

/-- What a cut-off leaves behind `n` characters, one of which is still there. -/
theorem length_of_drop_eq_cons {t r : Text} {n : Nat} {c : Char} (h : t.drop n = c :: r) :
    n + r.length + 1 = t.length := by
  have hlength := congrArg List.length h
  simp only [List.length_drop, List.length_cons] at hlength
  omega

theorem decimalLength_le (t : Text) : decimalLength t ≤ t.length := by
  unfold decimalLength
  extract_lets digits whole mantissa exponent
  have hdigits : ∀ t, digits t ≤ t.length := runLength_le Text.isDigit
  have hwhole : whole ≤ t.length := runLength_le _ t
  clear_value digits whole
  have hmantissa : mantissa ≤ t.length := by
    unfold mantissa
    split
    · split
      · next r hr =>
        have := length_of_drop_eq_cons hr
        have := hdigits r
        show whole + 1 + digits r ≤ t.length
        omega
      · exact hwhole
    · split
      · next r _ =>
        have := hdigits r
        simp only [List.length_cons]
        split <;> omega
      · exact Nat.zero_le _
  have hexponent : mantissa + exponent ≤ t.length := by
    unfold exponent
    split
    · next e r hr =>
      have := length_of_drop_eq_cons hr
      split
      · extract_lets sign n
        have hn : n ≤ (r.drop sign).length := hdigits _
        rw [List.length_drop] at hn
        clear_value sign n
        split
        · exact hmantissa
        · show mantissa + (1 + sign + n) ≤ t.length
          omega
      · exact hmantissa
    · exact hmantissa
  split
  · exact Nat.zero_le _
  · exact hexponent

theorem numberLength_le (t : Text) : numberLength t ≤ t.length := by
  have hmarked := fun mark digit => markedLength_le mark digit t
  have hdecimal := decimalLength_le t
  unfold numberLength
  extract_lets hex binary octal n
  have hn : n ≤ t.length := by
    unfold n
    split
    · exact hmarked _ _
    · split
      · exact hmarked _ _
      · split
        · exact hmarked _ _
        · exact hdecimal
  split
  · next h =>
    obtain ⟨-, h⟩ := Bool.and_eq_true_iff.mp h
    obtain ⟨r, hr⟩ := List.head?_eq_some_iff.mp (of_decide_eq_true h)
    have := length_of_drop_eq_cons hr
    omega
  · exact hn

theorem extra_step_le (extra : List Text) (expression : Bool) (c : Char) (r : Text) :
    (step extra expression c r).extra ≤ r.length := by
  unfold step
  split
  · exact runLength_le _ r
  split
  · exact commentLength_le r
  split
  · exact quotedLength_le true true c r
  split
  · exact templateLength_le 0 r
  split
  · exact regexLength_le false r
  split
  · next h => exact Nat.le_of_succ_le_succ (Text.length_le_of_isPrefixOf h)
  extract_lets number
  split
  · exact Nat.sub_le_of_le_add (numberLength_le (c :: r))
  split
  · exact runLength_le _ r
  split
  · exact Nat.zero_le _
  split
  · next o ho =>
    have hprefix := List.find?_some ho
    exact Nat.sub_le_of_le_add (Text.length_le_of_isPrefixOf hprefix)
  · exact Nat.zero_le _

end Script

/-! ### Shell -/

namespace Bash

theorem variableLength_le (r : Text) : variableLength r ≤ r.length := by
  unfold variableLength
  split
  · next t =>
    have := runLength_le (· ≠ '}') t
    extract_lets n
    simp only [List.length_cons]
    split <;> omega
  · next c t _ =>
    have := runLength_le Text.isWord t
    simp only [List.length_cons]
    split
    · omega
    · split <;> omega
  · exact Nat.zero_le _

theorem numberLength_le (t : Text) : numberLength t ≤ t.length := by
  unfold numberLength
  extract_lets hex n
  have hhex : hex ≤ t.length := by
    unfold hex
    split
    · next x r =>
      have := runLength_le Text.isHexDigit r
      simp only [List.length_cons]
      split <;> omega
    · exact Nat.zero_le _
  have hn : n ≤ t.length := runLength_le Text.isDigit t
  split
  · exact hhex
  · split
    · exact hn
    · exact Nat.zero_le _

theorem wordLength_le (t : Text) : wordLength t ≤ t.length := by
  unfold wordLength
  split
  · next c r =>
    have := runLength_le Text.isWord r
    simp only [List.length_cons]
    split <;> omega
  · exact Nat.zero_le _

theorem extra_step_le (expect : Bool) (c : Char) (r : Text) :
    (step expect c r).extra ≤ r.length := by
  unfold step
  split
  · exact Nat.zero_le _
  split
  · exact Nat.zero_le _
  split
  · exact runLength_le _ r
  split
  · exact quotedLength_le _ false c r
  split
  · exact variableLength_le r
  split
  · next o ho =>
    have hprefix := List.find?_some ho
    exact Nat.sub_le_of_le_add (Text.length_le_of_isPrefixOf hprefix)
  extract_lets number command word
  split
  · exact Nat.sub_le_of_le_add (numberLength_le (c :: r))
  split
  · exact Nat.sub_le_of_le_add (runLength_le isCommandChar (c :: r))
  split
  · have hword : word - 1 ≤ r.length := Nat.sub_le_of_le_add (wordLength_le (c :: r))
    split <;> exact hword
  split <;> exact Nat.zero_le _

end Bash

/-! ### Style sheets -/

namespace Css

theorem wordLength_le (context : Context) (t : Text) : wordLength context t ≤ t.length := by
  fun_induction wordLength context t <;>
    simp only [List.length_cons, List.length_nil] at * <;> omega

theorem extra_step_le (s : State) (c : Char) (r : Text) : (step s c r).extra ≤ r.length := by
  unfold step
  split
  · exact runLength_le _ r
  split
  · next h =>
    obtain ⟨-, h⟩ := Bool.and_eq_true_iff.mp h
    obtain ⟨t, rfl⟩ := List.head?_eq_some_iff.mp (of_decide_eq_true h)
    have := lengthThrough_le "*/".toList t
    show 1 + lengthThrough "*/".toList t ≤ t.length + 1
    omega
  split
  · exact quotedLength_le true false c r
  split
  · exact runLength_le _ r
  split
  · exact Nat.zero_le _
  extract_lets n
  split
  · exact Nat.sub_le_of_le_add (wordLength_le s.context (c :: r))
  · exact Nat.zero_le _

end Css

/-! ### HTML -/

namespace Html

theorem bodyLength_le (name t : Text) : bodyLength name t ≤ t.length := by
  fun_induction bodyLength name t <;>
    simp only [List.length_cons, List.length_nil] at * <;> omega

theorem tagLength_le (t : Text) : tagLength t ≤ t.length := by
  unfold tagLength
  split
  · next c r =>
    have := runLength_le isNameChar r
    simp only [List.length_cons]
    split <;> omega
  · next c r _ =>
    have := runLength_le isNameChar r
    simp only [List.length_cons]
    split <;> omega
  · exact Nat.zero_le _

/-- What is left of an embedded body is not more than what is left of the text, and not nothing. -/
def Mode.Fits (mode : Mode) (t : Text) : Prop :=
  match mode with
  | .style left _ => 0 < left ∧ left ≤ t.length
  | .script left _ => 0 < left ∧ left ≤ t.length
  | _ => True

theorem fits_afterTag (name r : Text) : (afterTag name r).Fits r := by
  have hlength := bodyLength_le name r
  unfold afterTag
  split
  · extract_lets n
    split
    · trivial
    · next hn => exact ⟨Nat.pos_of_ne_zero hn, hlength⟩
  split
  · extract_lets n
    split
    · trivial
    · next hn => exact ⟨Nat.pos_of_ne_zero hn, hlength⟩
  · trivial

/-- A span stays inside the text, and the mode behind it fits what is left. -/
def Stays (found : Text.Cut Mode (Option SpanClass)) (r : Text) : Prop :=
  found.extra ≤ r.length ∧ found.state.Fits (r.drop found.extra)

theorem stays_contentStep (c : Char) (r : Text) : Stays (contentStep c r) r := by
  unfold contentStep
  extract_lets t doctype n
  have ht : t.length = r.length + 1 := rfl
  split
  · next h =>
    have hopening : 4 ≤ t.length := Text.length_le_of_isPrefixOf h
    have hlength := lengthThrough_le "-->".toList (t.drop 4)
    rw [List.length_drop] at hlength
    exact ⟨by show 3 + _ ≤ r.length; omega, trivial⟩
  split
  · next h =>
    have hopening : 9 ≤ t.length := Text.length_le_of_isPrefixOf h
    have hlength := lengthThrough_le "]]>".toList (t.drop 9)
    rw [List.length_drop] at hlength
    exact ⟨by show 8 + _ ≤ r.length; omega, trivial⟩
  split
  · exact ⟨Nat.sub_le_of_le_add (lengthThrough_le ['>'] t), trivial⟩
  split
  · exact ⟨Nat.sub_le_of_le_add (tagLength_le t), trivial⟩
  split
  · exact ⟨Nat.zero_le _, trivial⟩
  · exact ⟨runLength_le _ r, trivial⟩

theorem stays_tagStep (name : Text) (c : Char) (r : Text) : Stays (tagStep name c r) r := by
  unfold tagStep
  split
  · next h =>
    obtain ⟨-, h⟩ := Bool.and_eq_true_iff.mp h
    obtain ⟨t, rfl⟩ := List.head?_eq_some_iff.mp (of_decide_eq_true h)
    exact ⟨Nat.le_add_left 1 t.length, trivial⟩
  split
  · exact ⟨Nat.zero_le _, fits_afterTag name r⟩
  split
  · exact ⟨runLength_le _ r, trivial⟩
  split
  · exact ⟨Nat.zero_le _, trivial⟩
  split
  · exact ⟨lengthThrough_le [c] r, trivial⟩
  split
  · exact ⟨runLength_le _ r, trivial⟩
  · exact ⟨Nat.zero_le _, trivial⟩

theorem stays_valueStep (name : Text) (c : Char) (r : Text) : Stays (valueStep name c r) r := by
  unfold valueStep
  split
  · exact ⟨runLength_le _ r, trivial⟩
  split
  · exact ⟨lengthThrough_le [c] r, trivial⟩
  split
  · exact ⟨runLength_le _ r, trivial⟩
  · exact stays_tagStep name c r

/-- A scanner that stays inside what is left of the body is never cut short by its end. -/
theorem extra_embed {σ : Type} {left : Nat} {next : Nat → σ → Mode}
    {inner : Text → Text.Cut σ (Option SpanClass)} {r : Text}
    (hinner : ∀ t, (inner t).extra ≤ t.length) :
    (embed left next inner r).extra = (inner (r.take (left - 1))).extra := by
  have hle := hinner (r.take (left - 1))
  rw [List.length_take] at hle
  show min _ _ = _
  omega

theorem stays_embed {σ : Type} {left : Nat} {next : Nat → σ → Mode}
    {inner : Text → Text.Cut σ (Option SpanClass)} {r : Text}
    (hnext : ∀ n s t, 0 < n ∧ n ≤ t.length → (next n s).Fits t)
    (hinner : ∀ t, (inner t).extra ≤ t.length) (hleft : left ≤ r.length + 1) :
    Stays (embed left next inner r) r := by
  -- The inner scanner sees what is left of the body only, so its step stays inside that.
  have hextra : (embed left next inner r).extra ≤ min (left - 1) r.length := by
    rw [extra_embed hinner, ← List.length_take]
    exact hinner _
  refine ⟨by omega, ?_⟩
  let rest := left - 1 - (embed left next inner r).extra
  show Mode.Fits (if rest = 0 then .content else next rest (inner (r.take (left - 1))).state) _
  split
  · trivial
  · next hrest =>
    refine hnext _ _ _ ⟨Nat.pos_of_ne_zero hrest, ?_⟩
    rw [List.length_drop]
    omega

/-- The steps inside HTML stay inside the text, and what is left of an embedded body stays inside
what is left of the text. -/
theorem keeps_step : Keeps step Mode.Fits := by
  intro mode c r hfits
  show Stays (step mode c r) r
  cases mode with
  | content => exact stays_contentStep c r
  | tag name => exact stays_tagStep name c r
  | value name => exact stays_valueStep name c r
  | style left s => exact stays_embed (fun _ _ _ h => h) (Css.extra_step_le s c) hfits.2
  | script left expression =>
    exact stays_embed (fun _ _ _ h => h) (Script.extra_step_le [] expression c) hfits.2

end Html

/-! ### All scanners -/

/-- Spans that make up the code: none of them is empty, and there are not more of them than
characters. -/
structure Tiles (spans : List Span) (code : Text) : Prop where
  /-- No span is empty. -/
  nonempty : ∀ p ∈ spans, p.text ≠ []
  /-- The texts of the spans are the code. -/
  whole : spansCode spans = code
  /-- There are not more spans than characters. -/
  length_le : spans.length ≤ code.length

theorem tiles_of_scan {σ : Type} {step : σ → Char → Text → Text.Cut σ (Option SpanClass)} {s : σ}
    {code : Text} (h : Scan step s code (Text.segment step s code)) :
    Tiles (Text.segment step s code) code :=
  ⟨fun _ hp => Text.text_ne_nil_of_mem_segment step hp, Text.flatMap_text_segment step s code,
    h.length_le⟩

/-- **The scanners lose and invent nothing.** For any code, and for any further keywords, the spans
of each scanner are those of a run in which no step reaches over the end of the code. None of them
is empty, there are at most as many as characters, and their texts make up the code. For HTML this
holds with any embedded style sheets and scripts, closed or not. -/
theorem scanners_tile (code : Text) :
    (∀ extra, Scan (Script.step extra) true code (Script.spans extra code) ∧
      Tiles (Script.spans extra code) code) ∧
    (Scan Bash.step true code (Bash.spans code) ∧ Tiles (Bash.spans code) code) ∧
    (Scan Css.step .initial code (Css.spans code) ∧ Tiles (Css.spans code) code) ∧
    (Scan Html.step .content code (Html.spans code) ∧ Tiles (Html.spans code) code) := by
  have hscript : ∀ extra, Scan (Script.step extra) true code (Script.spans extra code) :=
    fun extra => (Text.keeps_of_extra_le (Script.extra_step_le extra)).scan_segment trivial
  have hbash : Scan Bash.step true code (Bash.spans code) :=
    (Text.keeps_of_extra_le Bash.extra_step_le).scan_segment trivial
  have hcss : Scan Css.step .initial code (Css.spans code) :=
    (Text.keeps_of_extra_le Css.extra_step_le).scan_segment trivial
  have hhtml : Scan Html.step .content code (Html.spans code) :=
    Html.keeps_step.scan_segment trivial
  exact ⟨fun extra => ⟨hscript extra, tiles_of_scan (hscript extra)⟩, ⟨hbash, tiles_of_scan hbash⟩,
    ⟨hcss, tiles_of_scan hcss⟩, ⟨hhtml, tiles_of_scan hhtml⟩⟩

end Highlight

end Markdown
