import Markdown.Block.Row

/-!
# Tables

A row of headers, a separator row, and the rows that follow without a blank line.
-/

namespace Markdown.Table

/-- Whether a line can be a row of a table. -/
def isRow (line : Text) : Bool :=
  !Text.allBlank line && '|' ∈ line

/-- A table starts at a line with a pipe, if a separator row follows. -/
def recognise : Recogniser := fun _ line rest =>
  match rest with
  | [] => none
  | separator :: rest =>
    if '|' ∈ line then
      match Row.alignments? separator with
      | none => none
      | some alignments =>
        let rows := rest.takeWhile isRow
        some ⟨.table (Row.cells line) alignments (rows.map Row.cells), rows.length + 1, []⟩
    else none

end Markdown.Table
