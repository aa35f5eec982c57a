import Markdown.Highlight.Span
import Markdown.Html.Reference
import Markdown.Text.Fragments

/-!
# Writing spans with the visible column

Output of a highlighter together with the number of characters that a reader sees behind the last
line feed. Tags take no column and a character reference takes that of its characters.
-/

namespace Markdown.Highlight

/-- HTML written so far, and the column behind it. -/
structure Writer where
  /-- The pieces of HTML. -/
  html : Fragments
  /-- How many visible characters follow the last line feed. -/
  column : Nat
  deriving DecidableEq, Repr

namespace Writer

/-- Nothing written. -/
def empty : Writer :=
  ⟨.empty, 0⟩

/-- The column behind a visible text that starts at a column. -/
def columnAfter (column : Nat) (visible : Text) : Nat :=
  visible.foldl (fun k c => if c = '\n' then 0 else k + 1) column

/-- Writes HTML that shows the given text. -/
def put (w : Writer) (html visible : Text) : Writer :=
  ⟨w.html.append html, columnAfter w.column visible⟩

/-- Writes code in the tags of a class with some name. -/
def named (w : Writer) (name code : Text) : Writer :=
  w.put (wrapNamed name (Html.escape code)) code

/-- Writes a span. -/
def span (w : Writer) (s : Span) : Writer :=
  w.put (spanHtml s) s.text

/-- Writes HTML as it is. -/
def markup (w : Writer) (html : Text) : Report Writer := do
  let visible ← Html.visibleText html
  pure (w.put html visible)

/-- The HTML written so far. -/
def build (w : Writer) : Text :=
  w.html.build

end Writer

end Markdown.Highlight
