import Markdown.Block.Basic
import Markdown.Text.Basic

/-!
# Rows of pipe tables

A row is cut at its pipes. Pipes at the two ends are optional, and a backslash before a pipe
makes it part of a cell.
-/

namespace Markdown.Row

/-- The cells of a row without its outer pipes; `current` is the cell being read, in reverse. -/
def cellsFrom (current : Text) : Text → List Text
  | [] => [Text.trim current.reverse]
  | '\\' :: '|' :: r => cellsFrom ('|' :: current) r
  | '|' :: r => Text.trim current.reverse :: cellsFrom [] r
  | c :: r => cellsFrom (c :: current) r

/-- The row without a pipe at its start. -/
def dropOpening : Text → Text
  | '|' :: r => r
  | t => t

/-- The row without a pipe at its end, unless a backslash stands before it. -/
def dropClosing (t : Text) : Text :=
  if t.endsWith ['|'] && !t.endsWith ['\\', '|'] then t.dropLast else t

/-- The cells of a row, trimmed. -/
def cells (line : Text) : List Text :=
  cellsFrom [] (dropClosing (dropOpening (Text.trim line)))

/-- A cell of a separator row: dashes with an optional colon at either end. -/
def isSeparator (cell : Text) : Bool :=
  let inner : Text := match cell with
    | ':' :: r => r
    | t => t
  let dashes : Text := if inner.endsWith [':'] then inner.dropLast else inner
  !dashes.isEmpty && dashes.all (· == '-')

/-- The alignment that a separator cell asks for. -/
def alignmentOf (cell : Text) : Option Alignment :=
  match cell.startsWith [':'], cell.endsWith [':'] with
  | true, true => some .center
  | false, true => some .right
  | true, false => some .left
  | false, false => none

/-- The alignments of a separator row. -/
def alignments? (line : Text) : Option (List (Option Alignment)) :=
  if '|' ∈ line then
    let cs := cells line
    if cs.all isSeparator then some (cs.map alignmentOf) else none
  else none

end Markdown.Row
