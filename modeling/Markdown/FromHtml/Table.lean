import Markdown.Block.Basic
import Markdown.FromHtml.Inline
import Markdown.Text.Caseless
import Markdown.Text.Lowercase

/-!
# Tables of HTML

A table becomes a pipe table. Its header is the first row of its head, else its first row. Rows
under a head and rows of tables inside a cell are left out.
-/

namespace Markdown.FromHtml

open Html (Node Tag)

/-- Whether an element is a cell. -/
def isCell (tag : Tag) : Bool :=
  tag.isOneOf ["th", "td"]

/-- Whether an element is a row. -/
def isRow (tag : Tag) : Bool :=
  tag.isNamed "tr"

/-- The words for alignments. -/
def alignmentWords : List (Text × Alignment) :=
  [("left".toList, .left), ("center".toList, .center), ("right".toList, .right)]

/-- The declaration of an alignment at the start of a style: the word as written. -/
def alignmentAt? (style : Text) : Option Text := do
  let r ← Text.afterWord? "text-align".toList style
  match r.dropWhile Text.isBlank with
  | ':' :: r =>
    let r := r.dropWhile Text.isBlank
    let word ← alignmentWords.find? fun w => (Text.afterWord? w.1 r).isSome
    some (r.take word.1.length)
  | _ => none

/-- The first declaration of an alignment in a style. -/
def alignmentWord? : Text → Option Text
  | [] => none
  | c :: r => (alignmentAt? (c :: r)).or (alignmentWord? r)

/-- The alignment of a cell. A word with letters outside ASCII is no known one. -/
def alignmentOf (cell : Tag) : Report (Option Alignment) :=
  match alignmentWord? (cell.value "style") with
  | none => pure none
  | some written =>
    let word := Text.lower written
    match alignmentWords.find? fun w => w.1 == word with
    | some w => pure (some w.2)
    | none => do
      Report.fail (.unknownAlignment word)
      pure none

/-- The cell of an alignment in the line below the header. -/
def separator : Option Alignment → Text
  | some .left => ":---".toList
  | some .center => ":---:".toList
  | some .right => "---:".toList
  | none => "---".toList

/-- A row of cells between pipes. -/
def pipeRow (cells : List Text) : Text :=
  "| ".toList ++ " | ".toList.intercalate cells ++ " |".toList

/-- The text of a cell: its line feeds become spaces. -/
def cellText (t : Text) : Text :=
  (Text.trim t).map fun c => if c = '\n' then ' ' else c

/-- The cells of a row. -/
def rowCells (hook : Option Hook) (row : List Node) : Report (List Text) :=
  (Node.elements isCell row).mapM fun cell => cellText <$> inlineNodes hook cell.2

/-- The first row of the head of a table. -/
def headerRow? (children : List Node) : Option (List Node) :=
  match (Node.elements (·.isNamed "thead") children).head? with
  | some head => (Node.findAmong? isRow head.2).map (·.2)
  | none => none

/-- The rows of a table that stand under no head. -/
def bodyRows (children : List Node) : List (List Node) :=
  (Node.selectAmong isRow (·.isOneOf ["thead", "table"]) children).map (·.2)

/-- The header of a table, if its head has one, and the cells below it. -/
def headerCells (hook : Option Hook) (children : List Node) :
    Report (List (List Text) × List Text) :=
  match headerRow? children with
  | none => pure ([], [])
  | some row => do
    let cells ← rowCells hook row
    let alignments ← (Node.elements isCell row).mapM fun cell => alignmentOf cell.1
    pure ([cells], alignments.map separator)

/-- The Markdown of a table; nothing if it has no rows. `underHead` tells that the table itself
stands under the head of another one, so that all its rows do. -/
def table (hook : Option Hook) (underHead : Bool) (children : List Node) : Report Text := do
  let (header, separators) ← headerCells hook children
  let body ← (if underHead then [] else bodyRows children).mapM (rowCells hook)
  let rows := header ++ body.filter (!List.isEmpty ·)
  match rows with
  | [] => pure []
  | first :: rest =>
    let separators := if separators.isEmpty then first.map fun _ => separator none else separators
    pure (Text.unlines (pipeRow first :: pipeRow separators :: rest.map pipeRow) ++ ['\n', '\n'])

end Markdown.FromHtml
