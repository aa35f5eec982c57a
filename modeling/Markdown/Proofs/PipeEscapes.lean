import Markdown.Proofs.CanonicalBlocks

/-!
# Escaped pipes

A cell of a table row may hold any text if a backslash is written before each of its pipes. The row is
then cut at the pipes between its cells only, whatever pipes and backslashes the cells hold
(`cells_pipeRow_escaped`); what is lost is white space around a cell, and nothing else
(`cells_pipeRow_escaped_eq_iff`).
-/

namespace Markdown.Row

open Text
open FromHtml (pipeRow)

/-- The written form of a text in a cell: a backslash stands before each pipe. -/
def escapePipes (t : Text) : Text :=
  t.flatMap fun c => if c = '|' then ['\\', '|'] else [c]

theorem escapePipes_cons (c : Char) (t : Text) :
    escapePipes (c :: t) = (if c = '|' then ['\\', '|'] else [c]) ++ escapePipes t := rfl

/-- A backslash at the end of a cell, or before a written pipe, is not followed by a pipe. -/
theorem head?_escapePipes_append (t r : Text) :
    (escapePipes t ++ ' ' :: r).head? ≠ some '|' := by
  cases t with
  | nil => simp [escapePipes]
  | cons c t =>
    rw [escapePipes_cons]
    split
    · simp
    · next hc => simpa using hc

/-- A character that is no pipe goes into the cell, unless it is a backslash in front of a pipe. -/
theorem cellsFrom_cons_of_ne {c : Char} {r : Text} (hc : c ≠ '|') (hr : r.head? ≠ some '|')
    (current : Text) : cellsFrom current (c :: r) = cellsFrom (c :: current) r := by
  rw [cellsFrom]
  · rintro s - rfl
    exact hr rfl
  · exact hc

/-- A cell is read back character by character; the space behind it keeps its last backslash apart from
the pipe that ends the cell. -/
theorem cellsFrom_escapePipes (current t r : Text) :
    cellsFrom current (escapePipes t ++ ' ' :: r) = cellsFrom (t.reverse ++ current) (' ' :: r) := by
  induction t generalizing current with
  | nil => rfl
  | cons c t ih =>
    have hcell : (c :: t).reverse ++ current = t.reverse ++ (c :: current) := by simp
    rw [escapePipes_cons, hcell, ← ih]
    split
    · next hc =>
      rw [hc]
      rfl
    · next hc => exact cellsFrom_cons_of_ne hc (head?_escapePipes_append t r) current

/-- A space in front of a text is trimmed. -/
theorem trim_cons_space (t : Text) : trim (' ' :: t) = trim t := by
  rw [trim, trim]
  exact congrArg trimEnd (trimStart_append (s := [' ']) rfl t)

/-- The cell that has been read between two pipes. -/
theorem trim_read_cell (t : Text) : trim (' ' :: (t.reverse ++ [' '])).reverse = trim t := by
  have hread : (' ' :: (t.reverse ++ [' '])).reverse = ' ' :: (t ++ [' ']) := by simp
  rw [hread, trim_cons_space, Canonical.trim_append_space]

/-- The cells between the outer pipes, by induction over the cells. -/
theorem cellsFrom_intercalate {cells : List Text} (hne : cells ≠ []) :
    cellsFrom [] (' ' :: (" | ".toList.intercalate (cells.map escapePipes) ++ [' '])) =
      cells.map trim := by
  have hspace : ∀ r, cellsFrom [] (' ' :: r) = cellsFrom [' '] r := fun r => by
    rw [cellsFrom] <;> simp
  induction cells with
  | nil => exact absurd rfl hne
  | cons t ts ih =>
    cases ts with
    | nil =>
      rw [List.map_singleton, List.intercalate_singleton, hspace, cellsFrom_escapePipes]
      rw [cellsFrom_cons_of_ne (by decide) (by simp), cellsFrom, trim_read_cell]
      rfl
    | cons u ts =>
      have hline : " | ".toList.intercalate ((t :: u :: ts).map escapePipes) ++ [' '] =
          escapePipes t ++ ' ' :: '|' :: ' ' ::
            (" | ".toList.intercalate ((u :: ts).map escapePipes) ++ [' ']) := by
        rw [List.map_cons, List.map_cons, List.intercalate_cons_cons]
        simp
      rw [hline, hspace, cellsFrom_escapePipes]
      -- the space behind a cell is the one place where a pipe follows that ends the cell
      have hgap : ∀ current r, cellsFrom current (' ' :: '|' :: r) =
          trim (' ' :: current).reverse :: cellsFrom [] r := fun current r => by
        rw [cellsFrom, cellsFrom] <;> simp
      rw [hgap, trim_read_cell, ih (List.cons_ne_nil u ts)]
      rfl

/-- Escaped cells are read back, without the white space around them. -/
theorem cells_pipeRow_escaped {cells : List Text} (hne : cells ≠ []) :
    Row.cells (pipeRow (cells.map escapePipes)) = cells.map trim := by
  rw [Canonical.cells_pipeRow_eq_cellsFrom, cellsFrom_intercalate hne]

/-- **Reading a row undoes escaping its pipes.** Cells with any pipes and backslashes, written with a
backslash before each pipe, come back as they were exactly if none of them has white space at an end. -/
theorem cells_pipeRow_escaped_eq_iff {cells : List Text} (hne : cells ≠ []) :
    Row.cells (pipeRow (cells.map escapePipes)) = cells ↔ ∀ t ∈ cells, trim t = t := by
  have hself : cells.map trim = cells ↔ cells.map trim = cells.map id := by rw [List.map_id]
  rw [cells_pipeRow_escaped hne, hself, List.map_inj_left]
  rfl

/-- Pipes at both ends of a cell, an empty cell, and backslashes before a pipe and at the end. -/
theorem cells_pipeRow_escaped_eq_iff_backslashes :
    let cells : List Text := ["|a|".toList, [], "\\\\|".toList, "b\\".toList]
    cells ≠ [] ∧ (∀ t ∈ cells, trim t = t) ∧
      Row.cells (pipeRow (cells.map escapePipes)) = cells := by
  intro cells
  have htrimmed : ∀ t ∈ cells, trim t = t := by
    simp only [cells, List.forall_mem_cons]
    refine ⟨by decide, by decide, by decide, by decide, by simp⟩
  have hne : cells ≠ [] := List.cons_ne_nil _ _
  exact ⟨hne, htrimmed, (cells_pipeRow_escaped_eq_iff hne).mpr htrimmed⟩

end Markdown.Row
