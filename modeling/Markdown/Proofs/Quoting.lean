import Markdown.FromHtml.Block
import Markdown.Proofs.Ambient
import Markdown.Proofs.CanonicalBlocks
import Markdown.Proofs.WellFormed

/-!
# Quoting

Lines of any kind become one quote when each of them gets a quotation mark, and the blocks inside are
those of the lines without the mark (`Canonical.blocks_quoted`). The mark hides fences, rules, pipes
and list markers from every recogniser but that of quotes, and that one takes the mark away and one
space behind it, so the indentation of a line stays. Nothing changes on the way inside: the same data
is recognised and the same faults are found.
-/

namespace Markdown.Canonical

open Text Document

variable {ls : List Text}

theorem allBlank_quoted (line : Text) : allBlank (quoted line) = false := by
  cases line with
  | nil => rfl
  | cons c r => rfl

theorem newline_notMem_quoted {line : Text} (h : '\n' ∉ line) : '\n' ∉ quoted line := by
  unfold quoted
  split
  · decide
  · simpa using h

/-- Splitting lines in a quote: what is inside comes first, and then what stands behind the gap. -/
theorem blocksFrom_quoted (structured : Bool) (number : Nat) (line : Text) (ls : List Text)
    {tail : List Text} (htail : IsGap tail) :
    blocksFrom structured number ((line :: ls).map quoted ++ tail) = (do
      let inner ← blocks structured (line :: ls)
      let more ← blocksFrom structured (number + (ls.length + 1)) tail
      pure (.quote (unlines (line :: ls)) inner :: more)) := by
  have hmatch := matchAt_quoted structured number line ls htail
  have hbehind : (ls.map quoted ++ tail).drop ls.length = tail := List.drop_left' (by simp)
  rw [List.map_cons, List.cons_append, blocksFrom_cons structured number _ (allBlank_quoted line),
    hmatch]
  simp only [hbehind, Nat.add_assoc]
  rfl

/-- Quoted lines alone are one quote. -/
theorem blocks_map_quoted (structured : Bool) (hne : ls ≠ []) :
    blocks structured (ls.map quoted) =
      (fun inner => [.quote (unlines ls) inner]) <$> blocks structured ls := by
  obtain ⟨line, ls, rfl⟩ := List.exists_cons_of_ne_nil hne
  have hquoted := blocksFrom_quoted structured 0 line ls (.inl rfl : IsGap [])
  rw [List.append_nil] at hquoted
  simp only [blocksFrom_nil, pure_bind] at hquoted
  rw [blocks, hquoted, map_eq_pure_bind]

/-! ### The quotes that the conversion from HTML writes -/

theorem quote_eq (t : Text) :
    FromHtml.quote t = FromHtml.closeLines ((Text.lines (trim t)).map quoted) := rfl

theorem lines_quote (t : Text) :
    Text.lines (FromHtml.quote t) = (Text.lines (trim t)).map quoted ++ [[], []] := by
  have hne : (Text.lines (trim t)).map quoted ≠ [] :=
    mt List.map_eq_nil_iff.mp (lines_ne_nil (trim t))
  have hjoined : FromHtml.quote t = unlines ((Text.lines (trim t)).map quoted ++ [[], []]) := by
    rw [quote_eq, FromHtml.closeLines, unlines_append hne (by simp)]
    rfl
  rw [hjoined]
  apply Text.lines_unlines (by simp)
  intro l hl
  rcases List.mem_append.mp hl with hl | hl
  · obtain ⟨k, hk, rfl⟩ := List.mem_map.mp hl
    exact newline_notMem_quoted (newline_notMem_of_mem_lines hk)
  · have hempty : l = [] := by simpa using hl
    simp [hempty]

/-- What the conversion writes for the text of a quote is split into one quote of this text. -/
theorem blocks_lines_quote (structured : Bool) (t : Text) :
    blocks structured (Text.lines (FromHtml.quote t)) =
      (fun inner => [.quote (trim t) inner]) <$> blocks structured (Text.lines (trim t)) := by
  obtain ⟨line, ls, hlines⟩ := exists_cons_lines (trim t)
  have htext : unlines (line :: ls) = trim t := by
    rw [← hlines]
    exact unlines_lines (trim t)
  have hblank : ∀ number, blocksFrom structured number [[], []] = pure [] := fun number =>
    blocksFrom_of_allBlank (by simp [allBlank])
  have hquoted := blocksFrom_quoted structured 0 line ls (.inr ⟨[[]], rfl⟩ : IsGap [[], []])
  simp only [hblank, pure_bind] at hquoted
  rw [lines_quote, show Text.lines (trim t) = line :: ls from hlines, blocks, hquoted, htext,
    map_eq_pure_bind]

/-- **Quoting wraps exactly.** If each of some lines gets a quotation mark, the lines are split into
one quote: its text is that of the lines, and its blocks are those of the lines, with the same notes
and faults. The conversion from HTML writes quotes in this form, and so they are split in this way. -/
theorem blocks_quoted (structured : Bool) (hne : ls ≠ []) :
    blocks structured (ls.map quoted) =
        (fun inner => [.quote (unlines ls) inner]) <$> blocks structured ls ∧
      ∀ t, FromHtml.quote t = FromHtml.closeLines ((Text.lines (trim t)).map quoted) ∧
        blocks structured (Text.lines (FromHtml.quote t)) =
          (fun inner => [.quote (trim t) inner]) <$> blocks structured (Text.lines (trim t)) :=
  ⟨blocks_map_quoted structured hne, fun t => ⟨quote_eq t, blocks_lines_quote structured t⟩⟩

/-- A list, an underlined heading, a table, data, a quote, indented code and a fence that stays open. -/
def unruly : List Text :=
  ["- a", "", "b", "---", "| c |", "|---|", "", "\x7b\"d\": 1\x7d", "", "> e", "    f",
    "\x60\x60\x60", "g"].map String.toList

theorem blocks_quoted_unruly :
    unruly ≠ [] ∧ ∃ inner, (blocks true unruly).answer = .ok inner ∧ inner.length = 7 ∧
      (blocks true (unruly.map quoted)).answer = .ok [.quote (unlines unruly) inner] := by
  have hfault : Report.firstFault (blocks true unruly).notes = none := by decide +kernel
  refine ⟨by decide, (blocks true unruly).value, by rw [Report.answer, hfault], by decide +kernel, ?_⟩
  rw [(blocks_quoted true (by decide)).1, Report.answer, Report.notes_map, hfault]
  rfl

end Markdown.Canonical
