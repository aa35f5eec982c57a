import Markdown.Highlight.Writer
import Markdown.Proofs.Lossless
import Mathlib.Data.List.DropRight

/-!
# The visible column

A writer counts the columns while it writes. For a span it counts the characters of the code; for HTML
that is written as it is, it first takes the tags away and reads the references. Both counts agree: the
column of a writer is the length of the last line of the code that was written (`Writer.Agrees`), in
whatever pieces it came, and it comes out again if the HTML of all pieces is written at once
(`Writer.column_agrees`).
-/

namespace Markdown

open Html

namespace Highlight

/-- The part of a text behind its last line feed, or the whole text. -/
def lastLine (t : Text) : Text :=
  t.rtakeWhile (· ≠ '\n')

theorem reads_spanHtml (s : Span) : ∃ ts, Reads (spanHtml s) s.text ts := by
  unfold spanHtml
  split
  · exact ⟨_, reads_escape s.text⟩
  · next c _ => exact ⟨_, reads_wrap c (reads_escape s.text)⟩

namespace Writer

/-- The column behind a text is that behind its second part, from where its first part ends. -/
theorem columnAfter_append (column : Nat) (s t : Text) :
    columnAfter column (s ++ t) = columnAfter (columnAfter column s) t :=
  List.foldl_append

/-- From the start of a line, the column is the length of the last line. -/
theorem columnAfter_zero (t : Text) : columnAfter 0 t = (lastLine t).length := by
  induction t using List.reverseRecOn with
  | nil => rfl
  | append_singleton t c ih =>
    rw [columnAfter_append, ih]
    show columnAfter _ [c] = ((t ++ [c]).rtakeWhile (· ≠ '\n')).length
    rw [List.rtakeWhile_concat]
    by_cases hc : c = '\n'
    · simp [columnAfter, hc]
    · simp [columnAfter, hc, lastLine]

/-- What was written shows some code, and the column is the one behind this code. -/
structure Agrees (w : Writer) (code : Text) : Prop where
  /-- The column is the length of the last line. -/
  column_eq : w.column = (lastLine code).length
  /-- The HTML holds tags and the written form of the code. -/
  reads : ∃ ts, Reads w.build code ts

variable {w : Writer} {code : Text}

theorem agrees_empty : Agrees empty [] :=
  ⟨rfl, _, reads_nil⟩

/-- Whatever HTML shows a text, the column moves by this text. -/
theorem Agrees.put {html visible : Text} (h : w.Agrees code)
    (hhtml : ∃ ts, Reads html visible ts) : (w.put html visible).Agrees (code ++ visible) := by
  obtain ⟨ts, hts⟩ := h.reads
  obtain ⟨more, hmore⟩ := hhtml
  refine ⟨?_, ts ++ more, ?_⟩
  · show columnAfter w.column visible = _
    rw [h.column_eq, ← columnAfter_zero, ← columnAfter_append, columnAfter_zero]
  · have hbuild : (w.put html visible).build = w.build ++ html := w.html.build_append html
    rw [hbuild]
    exact hts.append hmore

/-- A run of spans keeps the agreement, by induction over the spans. -/
theorem Agrees.foldl_span (h : w.Agrees code) (spans : List Span) :
    (spans.foldl span w).Agrees (code ++ spansCode spans) := by
  induction spans generalizing w code with
  | nil => simpa [spansCode] using h
  | cons s spans ih =>
    have hcode : code ++ spansCode (s :: spans) = code ++ s.text ++ spansCode spans := by
      rw [List.append_assoc]
      rfl
    rw [hcode]
    exact ih (h.put (reads_spanHtml s))

/-- The HTML of a writer can be written at once, and the column is the same. -/
theorem Agrees.markup_build (h : w.Agrees code) :
    empty.markup w.build = pure (empty.put w.build code) ∧
      (empty.put w.build code).column = w.column := by
  obtain ⟨ts, hts⟩ := h.reads
  refine ⟨?_, ?_⟩
  · rw [markup, hts.visibleText_eq]
    rfl
  · rw [h.column_eq, ← columnAfter_zero]
    rfl

/-- **The column does not depend on the pieces.** Behind any spans, with classes or without, the column
is the number of characters behind the last line feed of their code. The HTML without its tags and with
its references replaced is their code, so a writer that writes this HTML at once gets to the same
column. -/
theorem column_agrees (spans : List Span) :
    let w := spans.foldl span empty
    w.column = (lastLine (spansCode spans)).length ∧
      visibleText w.build = pure (spansCode spans) ∧
      ∃ w', empty.markup w.build = pure w' ∧ w'.column = w.column := by
  have h : Agrees (spans.foldl span empty) (spansCode spans) := agrees_empty.foldl_span spans
  obtain ⟨ts, hts⟩ := h.reads
  exact ⟨h.column_eq, hts.visibleText_eq, _, h.markup_build⟩

end Writer

end Highlight

end Markdown
