import Markdown.Block.Basic
import Markdown.Block.Line

/-!
# Code blocks

Code between fences and code set in by four spaces or a tab.
-/

namespace Markdown.Fence

/-- Code behind a fence. The next line that starts with a fence closes it; without one the code
runs to the end. -/
def recognise : Recogniser := fun _ line rest =>
  if Line.isFence line then
    let language := Text.trim ((Text.trimStart line).drop 3)
    let body := rest.takeWhile fun l => !Line.isFence l
    let closing := if body.length < rest.length then 1 else 0
    some ⟨.code language (Text.unlines body) false, body.length + closing, []⟩
  else none

/-- The line without four spaces or a tab at its start. -/
def unindent? (line : Text) : Option Text :=
  match line with
  | ' ' :: ' ' :: ' ' :: ' ' :: r => some r
  | '\t' :: r => some r
  | _ => none

/-- The code of an indented line; a blank line stands for an empty one. -/
def indentedLine? (line : Text) : Option Text :=
  match unindent? line with
  | some code => some code
  | none => if Text.allBlank line then some [] else none

/-- The indented and blank lines at the start of some lines, without their indentation. -/
def indentedBody : List Text → List Text
  | [] => []
  | l :: r =>
    match indentedLine? l with
    | some code => code :: indentedBody r
    | none => []

/-- The lines without blank lines at the end. -/
def dropBlankEnd (ls : List Text) : List Text :=
  (ls.reverse.dropWhile Text.allBlank).reverse

/-- Indented code. Blank lines at its end belong to it but are not shown; a run without visible
text is no code. -/
def recogniseIndented : Recogniser := fun _ line rest =>
  match unindent? line with
  | none => none
  | some code =>
    let body := code :: indentedBody rest
    let shown := dropBlankEnd body
    if shown.isEmpty then none
    else some ⟨.code [] (Text.unlines shown) false, body.length - 1, []⟩

end Markdown.Fence
