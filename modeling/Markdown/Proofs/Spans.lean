import Markdown.Highlight.Registry
import Markdown.Proofs.Lines
import Markdown.Proofs.Search

/-!
# Highlighters write spans of the code

Without a predicate for nested JSON, every built-in highlighter cuts the code into spans and writes
these, without a note (`Highlight.Highlighter.Spans`). The scanners do so by definition. The one for
YAML writes line by line (`Highlight.Writes`). A predicate matters to one part of a line only: a value
at its end, if the line is a new one (`Highlight.Yaml.lineHtml_cases`). All other parts are spans.
-/

namespace Markdown

open Html

namespace Highlight

/-- The code of spans. -/
def spansCode (spans : List Span) : Text :=
  spans.flatMap Text.Segment.text

/-- A report on the HTML of spans that make up some code, without notes; something else may come with
it. -/
def Writes {α : Type} (x : Report (Text × α)) (code : Text) : Prop :=
  ∃ spans a, x = pure (spansHtml spans, a) ∧ spansCode spans = code

/-- HTML of spans that make up some code. -/
def IsSpanned (html code : Text) : Prop :=
  ∃ spans : List Span, html = spansHtml spans ∧ spansCode spans = code

theorem isSpanned_nil : IsSpanned [] [] :=
  ⟨[], rfl, rfl⟩

theorem isSpanned_escape (t : Text) : IsSpanned (escape t) t :=
  ⟨[⟨none, t⟩], (List.append_nil _).symm, List.append_nil t⟩

theorem isSpanned_wrap (c : SpanClass) (t : Text) : IsSpanned (wrap c (escape t)) t :=
  ⟨[⟨some c, t⟩], (List.append_nil _).symm, List.append_nil t⟩

variable {html html' code code' : Text}

theorem IsSpanned.append (h : IsSpanned html code) (h' : IsSpanned html' code') :
    IsSpanned (html ++ html') (code ++ code') := by
  obtain ⟨spans, rfl, rfl⟩ := h
  obtain ⟨spans', rfl, rfl⟩ := h'
  exact ⟨spans ++ spans', List.flatMap_append.symm, List.flatMap_append⟩

theorem IsSpanned.writes {α : Type} (h : IsSpanned html code) (a : α) :
    Writes (pure (html, a)) code := by
  obtain ⟨spans, rfl, rfl⟩ := h
  exact ⟨spans, a, rfl, rfl⟩

/-! ### YAML -/

namespace Yaml

/-- Blanks and what stands behind them: nothing, or a value with a blank in front of it. -/
structure Spaced (space value : Text) : Prop where
  /-- The blanks. -/
  blank : ∀ c ∈ space, Text.isBlank c = true
  /-- The value. -/
  value : value = [] ∨ space ≠ [] ∧ ∃ c r, value = c :: r ∧ Text.isBlank c = false

theorem spaced_takeWhile {t : Text} (h : ∀ c, t.head? = some c → Text.isBlank c = true) :
    Spaced (t.takeWhile Text.isBlank) (t.dropWhile Text.isBlank) := by
  refine ⟨fun c hc => Text.of_mem_takeWhile hc, ?_⟩
  cases hvalue : t.dropWhile Text.isBlank with
  | nil => exact .inl rfl
  | cons d r =>
    refine .inr ⟨?_, d, r, rfl, Text.not_of_dropWhile_eq_cons hvalue⟩
    obtain ⟨c, rest, rfl⟩ := List.exists_cons_of_ne_nil (l := t) (by rintro rfl; cases hvalue)
    simp [h c rfl]

/-- What stands in front of the value of a pair. -/
def Pair.head (p : Pair) : Text :=
  p.lead ++ p.key ++ ':' :: p.space

/-- A pair is its line, cut at the first colon. -/
theorem pair?_eq_some {line : Text} {p : Pair} (h : pair? line = some p) :
    line = p.head ++ p.value ∧ (p.lead ++ p.key ≠ [] ∧ ':' ∉ p.lead ++ p.key) ∧
      Spaced p.space p.value := by
  unfold pair? at h
  split at h
  · cases h
  · next before after hcut =>
    obtain ⟨rfl, hcolon⟩ := Text.cutAt?_eq_some hcut
    dsimp only at h
    generalize (if (before.takeWhile Text.isBlank).length = before.length then before.length - 1
      else (before.takeWhile Text.isBlank).length) = n at h
    obtain ⟨hends, h⟩ := Option.ite_none_left_eq_some.mp h
    obtain rfl := Option.some.inj h
    simp only [Bool.or_eq_true, List.isEmpty_iff, Bool.not_eq_true', not_or, Bool.not_eq_false] at hends
    refine ⟨by simp [Pair.head], by simpa using ⟨hends.1, hcolon⟩, spaced_takeWhile fun c hc => ?_⟩
    obtain ⟨r, rfl⟩ := List.head?_eq_some_iff.mp hc
    exact hends.2

/-- An entry is its line, cut at the dash. -/
theorem entry?_eq_some {line lead space rest : Text} (h : entry? line = some (lead, space, rest)) :
    line = lead ++ '-' :: space ++ rest ∧ (∀ c ∈ lead, Text.isBlank c = true) ∧ Spaced space rest := by
  unfold entry? at h
  split at h
  · next r hr =>
    obtain ⟨hends, h⟩ := Option.ite_none_right_eq_some.mp h
    obtain ⟨rfl, rfl, rfl⟩ : line.takeWhile Text.isBlank = lead ∧
        r.takeWhile Text.isBlank = space ∧ r.dropWhile Text.isBlank = rest := by simpa using h
    refine ⟨?_, fun c hc => Text.of_mem_takeWhile hc, spaced_takeWhile fun c hc => ?_⟩
    · have hline := List.takeWhile_append_dropWhile (p := Text.isBlank) (l := line)
      rw [hr] at hline
      simpa using hline.symm
    · obtain ⟨u, rfl⟩ := List.head?_eq_some_iff.mp hc
      simpa using hends
  · cases h

/-- What stands on a line in front of a value: the dash of an entry, a key with its colon, or both. -/
inductive Introduces : Text → Text → Prop where
  /-- A dash. A pair behind it is no value. -/
  | entry {lead space value : Text} (hlead : ∀ c ∈ lead, Text.isBlank c = true)
    (hspaced : Spaced space value) (hvalue : pair? value = none) :
    Introduces (lead ++ '-' :: space) value
  /-- A key. -/
  | pair {key space value : Text} (hkey : key ≠ [] ∧ ':' ∉ key) (hspaced : Spaced space value) :
    Introduces (key ++ ':' :: space) value
  /-- A key behind a dash. -/
  | both {lead space key gap value : Text} (hlead : ∀ c ∈ lead, Text.isBlank c = true)
    (hspaced : Spaced space (key ++ ':' :: gap ++ value)) (hkey : key ≠ [] ∧ ':' ∉ key)
    (hgap : Spaced gap value) : Introduces (lead ++ '-' :: space ++ (key ++ ':' :: gap)) value

/-- A function on a line that depends on a predicate and on the offset of the line. -/
abbrev Reading :=
  Option (Text → Bool) → Nat → Report (Text × Mode)

/-- A line of spans, without a value that may hold JSON. -/
def Settles (f : Reading) (line : Text) : Prop :=
  ∃ html after, IsSpanned html line ∧ ∀ expanded offset, f expanded offset = pure (html, after)

/-- A value of one line. With a predicate, it is shown by a toggle if it holds JSON. -/
def scalarHtml (expanded : Option (Text → Bool)) (offset : Nat) (value : Text) : Report Text :=
  match expanded with
  | none => pure (scalar value)
  | some p => do
    match ← toggle p offset value with
    | some html => pure html
    | none => pure (scalar value)

/-- Spans, and a value of one line behind them. -/
def Offers (f : Reading) (head value : Text) : Prop :=
  ∃ html, IsSpanned html head ∧ ∀ expanded offset, f expanded offset = do
    let more ← scalarHtml expanded (offset + head.length) value
    pure (html ++ more, .plain)

theorem settles_pure {html t : Text} (h : IsSpanned html t) (after : Mode) :
    Settles (fun _ _ => pure (html, after)) t :=
  ⟨html, after, h, fun _ _ => rfl⟩

/-- Spans in front of what is read. -/
def Reading.behind (html head : Text) (f : Reading) : Reading :=
  fun expanded offset => do
    let (more, after) ← f expanded (offset + head.length)
    pure (html ++ more, after)

variable {f : Reading} {html head : Text}

theorem Settles.behind {t : Text} (h : IsSpanned html head) (hf : Settles f t) :
    Settles (f.behind html head) (head ++ t) := by
  obtain ⟨more, after, hmore, hf⟩ := hf
  exact ⟨html ++ more, after, h.append hmore, fun expanded offset => by
    rw [Reading.behind, hf, pure_bind]⟩

theorem Offers.behind {second value : Text} (h : IsSpanned html head) (hf : Offers f second value) :
    Offers (f.behind html head) (head ++ second) value := by
  obtain ⟨more, hmore, hf⟩ := hf
  refine ⟨html ++ more, h.append hmore, fun expanded offset => ?_⟩
  rw [Reading.behind, hf, List.length_append, ← Nat.add_assoc]
  simp

theorem valueHtml_cases (indentation : Nat) (value : Text) :
    Settles (fun expanded offset => valueHtml expanded offset indentation value) value ∨
      value ≠ [] ∧ Offers (fun expanded offset => valueHtml expanded offset indentation value) [] value := by
  unfold valueHtml
  split
  · exact .inl (settles_pure isSpanned_nil _)
  · split
    · exact .inl (settles_pure (isSpanned_wrap .punctuation _) _)
    · split
      · exact .inl (settles_pure (isSpanned_wrap .string _) _)
      · refine .inr ⟨List.cons_ne_nil _ _, [], isSpanned_nil, fun expanded offset => ?_⟩
        unfold scalarHtml
        split
        · rfl
        · simp only [List.length_nil, Nat.add_zero, List.nil_append, bind_assoc]
          congr 1
          funext x
          cases x <;> rfl

theorem pairHtml_cases (indentation : Nat) (next : Option Text) (p : Pair) :
    Settles (fun expanded offset => pairHtml expanded offset indentation next p) (p.head ++ p.value) ∨
      p.value ≠ [] ∧
        Offers (fun expanded offset => pairHtml expanded offset indentation next p) p.head p.value := by
  have hhead : IsSpanned (escape p.lead ++ wrap .key (escape p.key) ++ wrap .punctuation [':'] ++
      escape p.space) p.head := by
    have hspans := (((isSpanned_escape p.lead).append (isSpanned_wrap .key p.key)).append
      (isSpanned_wrap .punctuation [':'])).append (isSpanned_escape p.space)
    rwa [List.append_assoc (p.lead ++ p.key)] at hspans
  have hlength : p.valueOffset = p.head.length := by
    simp [Pair.valueOffset, Pair.head]
    omega
  unfold pairHtml
  dsimp only
  split
  · next hvalue =>
    rw [hvalue, List.append_nil]
    exact .inl (settles_pure hhead _)
  · next q r hvalue =>
    split
    · exact .inl (settles_pure (hhead.append (isSpanned_wrap .string _)) _)
    · rw [hlength]
      rcases valueHtml_cases indentation p.value with h | ⟨hne, h⟩
      · exact .inl (h.behind hhead)
      · have hoffers := h.behind hhead
        rw [List.append_nil] at hoffers
        exact .inr ⟨hne, hoffers⟩

/-- A line with a value of one line at its end. -/
def EndsInValue (f : Reading) (line : Text) : Prop :=
  ∃ head value, line = head ++ value ∧ value ≠ [] ∧ Introduces head value ∧ Offers f head value

theorem freshLine_cases (line : Text) (next : Option Text) :
    Settles (fun expanded offset => freshLine expanded offset line next) line ∨
      EndsInValue (fun expanded offset => freshLine expanded offset line next) line := by
  unfold freshLine
  dsimp only
  split
  · have hline := (isSpanned_escape (line.takeWhile Text.isBlank)).append
      (isSpanned_wrap .punctuation (line.dropWhile Text.isBlank))
    rw [List.takeWhile_append_dropWhile] at hline
    exact .inl (settles_pure hline _)
  · split
    · next lead space rest hentry =>
      obtain ⟨rfl, hlead, hspaced⟩ := entry?_eq_some hentry
      have hdash : IsSpanned (escape lead ++ wrap .punctuation ['-'] ++ escape space)
          (lead ++ '-' :: space) := by
        have hspans := ((isSpanned_escape lead).append (isSpanned_wrap .punctuation ['-'])).append
          (isSpanned_escape space)
        rwa [List.append_assoc lead] at hspans
      have hlength : ∀ offset, offset + lead.length + 1 + space.length =
          offset + (lead ++ '-' :: space).length := by
        intro offset
        simp only [List.length_append, List.length_cons]
        omega
      simp only [hlength]
      split
      · next p hpair =>
        obtain ⟨rfl, hkey, hgap⟩ := pair?_eq_some hpair
        rcases pairHtml_cases (indent (lead ++ '-' :: space ++ (p.head ++ p.value))) next p with
          h | ⟨hne, h⟩
        · exact .inl (h.behind hdash)
        · exact .inr ⟨_, p.value, (List.append_assoc _ _ _).symm, hne, .both hlead hspaced hkey hgap,
            h.behind hdash⟩
      · next hnone =>
        rcases valueHtml_cases (indent (lead ++ '-' :: space ++ rest)) rest with h | ⟨hne, h⟩
        · exact .inl (h.behind hdash)
        · have hoffers := h.behind hdash
          rw [List.append_nil] at hoffers
          exact .inr ⟨_, rest, rfl, hne, .entry hlead hspaced hnone, hoffers⟩
    · split
      · next p hpair =>
        obtain ⟨rfl, hkey, hgap⟩ := pair?_eq_some hpair
        rcases pairHtml_cases (indent (p.head ++ p.value)) next p with h | ⟨hne, h⟩
        · exact .inl h
        · exact .inr ⟨p.head, p.value, rfl, hne, .pair hkey hgap, h⟩
      · exact .inl (settles_pure (isSpanned_escape _) _)

/-- Whether a line goes on with what was begun in front of it. -/
def Mode.continues (mode : Mode) (line : Text) : Bool :=
  match mode with
  | .plain => false
  | .block n => Text.allBlank line || n < indent line
  | .unquoted n => Text.allBlank line || n < indent line
  | .quoted _ => true

/-- Whatever a line continues, it is spans, or it is a new one with a value at its end. -/
theorem lineHtml_cases (mode : Mode) (line : Text) (next : Option Text) :
    Settles (fun expanded offset => lineHtml expanded mode offset line next) line ∨
      mode.continues line = false ∧
        EndsInValue (fun expanded offset => lineHtml expanded mode offset line next) line := by
  have hpart : IsSpanned (if line.isEmpty then [] else stringPart line) line := by
    split
    · next hempty => simpa [List.isEmpty_iff.mp hempty] using isSpanned_nil
    · exact isSpanned_wrap .string line
  -- A visible line ends a block or a value if it is not deeper than the key.
  have hnew : ∀ n, (!Text.allBlank line && decide (indent line ≤ n)) = true →
      (Text.allBlank line || decide (n < indent line)) = false := by
    simp
  unfold lineHtml
  dsimp only
  split
  · exact (freshLine_cases line next).imp_right fun h => ⟨rfl, h⟩
  · split
    · next n hfresh => exact (freshLine_cases line next).imp_right fun h => ⟨hnew n hfresh, h⟩
    · exact .inl (settles_pure hpart _)
  · split
    · next n hfresh => exact (freshLine_cases line next).imp_right fun h => ⟨hnew n hfresh, h⟩
    · split
      · exact .inl (settles_pure (isSpanned_wrap .string line) _)
      · exact .inl (settles_pure (isSpanned_escape line) _)
  · split
    · exact .inl (settles_pure hpart _)
    · next n _ =>
      have hline := (isSpanned_wrap .string (line.take (n + 1))).append
        (isSpanned_escape (line.drop (n + 1)))
      rw [List.take_append_drop] at hline
      exact .inl (settles_pure hline _)

/-- Without a predicate, the spans of a line are written. -/
theorem writes_lineHtml (mode : Mode) (offset : Nat) (line : Text) (next : Option Text) :
    Writes (lineHtml none mode offset line next) line := by
  rcases lineHtml_cases mode line next with
    ⟨html, after, hhtml, hline⟩ | ⟨-, head, value, rfl, -, -, html, hhtml, hline⟩
  · rw [show lineHtml none mode offset line next = _ from hline none offset]
    exact hhtml.writes after
  · rw [show lineHtml none mode offset (head ++ value) next = _ from hline none offset]
    exact (hhtml.append (isSpanned_wrap _ value)).writes Mode.plain

theorem linesHtml_eq_nil (expanded : Option (Text → Bool)) (mode : Mode) (offset : Nat)
    (lines : List Text) : (linesHtml expanded mode offset lines).value = [] ↔ lines = [] := by
  cases lines with
  | nil => exact ⟨fun _ => rfl, fun _ => rfl⟩
  | cons line rest => exact ⟨fun h => absurd h (List.cons_ne_nil _ _), fun h => by cases h⟩

theorem exists_spans_linesHtml (mode : Mode) (offset : Nat) (lines : List Text) :
    ∃ htmls, linesHtml none mode offset lines = pure htmls ∧
      IsSpanned (Text.unlines htmls) (Text.unlines lines) := by
  induction lines generalizing mode offset with
  | nil => exact ⟨[], rfl, isSpanned_nil⟩
  | cons line rest ih =>
    obtain ⟨spans, next, hline, hcode⟩ := writes_lineHtml mode offset line rest.head?
    obtain ⟨htmls, hrest, hspanned⟩ := ih next (offset + line.length + 1)
    refine ⟨spansHtml spans :: htmls, ?_, ?_⟩
    · rw [linesHtml, hline, pure_bind]
      dsimp only
      rw [hrest]
      rfl
    · have hfirst : IsSpanned (spansHtml spans) line := ⟨spans, rfl, hcode⟩
      cases rest with
      | nil =>
        obtain rfl : [] = htmls := congrArg Report.value hrest
        simpa [Text.unlines, List.intercalate] using hfirst
      | cons second more =>
        have hnil := linesHtml_eq_nil none next (offset + line.length + 1) (second :: more)
        rw [hrest, Report.value_pure] at hnil
        have hne : htmls ≠ [] := fun h => List.cons_ne_nil _ _ (hnil.mp h)
        rw [Text.unlines_cons line (List.cons_ne_nil _ _), Text.unlines_cons _ hne]
        exact hfirst.append ((isSpanned_escape ['\n']).append hspanned)

end Yaml

/-! ### All languages -/

/-- A highlighter that writes spans of the code when it has no predicate for nested JSON. -/
def Highlighter.Spans (h : Highlighter) : Prop :=
  ∀ code, ∃ spans, h none code = pure (spansHtml spans) ∧ spansCode spans = code

theorem Yaml.spans_highlight : Highlighter.Spans Yaml.highlight := by
  intro code
  obtain ⟨htmls, hlines, spans, hhtml, hcode⟩ := exists_spans_linesHtml .plain 0 (Text.lines code)
  rw [Text.unlines_lines] at hcode
  refine ⟨spans, ?_, hcode⟩
  rw [highlight, hlines, pure_bind, hhtml]

theorem spans_builtin : ∀ e ∈ Registry.builtin, e.2.Spans := by
  have hscan : ∀ {σ : Type} (step : σ → Char → Text → Text.Cut σ (Option SpanClass)) (s : σ),
      (ofSpans (Text.segment step s)).Spans :=
    fun step s code => ⟨_, rfl, Text.flatMap_text_segment step s code⟩
  have hjson : Highlighter.Spans Json.highlight :=
    fun code => ⟨_, rfl, Text.flatMap_text_segment Json.step () code⟩
  simp only [Registry.builtin, List.forall_mem_cons, List.not_mem_nil, false_implies, implies_true,
    and_true]
  exact ⟨hjson, Yaml.spans_highlight, hscan _ _, hscan _ _, hscan _ _, hscan _ _, hscan _ _,
    hscan _ _⟩

end Highlight

end Markdown
