import Markdown.Text.Replace

/-!
# Texts of Markdown

Small operations on the Markdown that is made from HTML: zero-width spaces, which editors insert
to break out of formatting, are left out; delimiters stand around visible text only; blank lines
are not repeated.
-/

namespace Markdown.FromHtml

/-- The space without width. -/
def zeroWidthSpace : Char := Char.ofNat 0x200b

/-- The text without zero-width spaces. -/
def dropZeroWidth (t : Text) : Text :=
  t.filter (· ≠ zeroWidthSpace)

/-- The characters with a meaning in Markdown. -/
def markdownChars : Text :=
  "\\\x60*_\x7b\x7d[]()#+-.!".toList

/-- The text with a backslash before each character that has a meaning in Markdown. -/
def escape (t : Text) : Text :=
  t.flatMap fun c => if markdownChars.contains c then ['\\', c] else [c]

/-- A text between delimiters; nothing if it shows nothing. -/
def wrap (delimiter : Text) (t : Text) : Text :=
  if Text.allBlank t then [] else delimiter ++ t ++ delimiter

/-- Three or more line feeds. -/
def blankLinesRule : Text.Rule := fun _ c r =>
  let more := (r.takeWhile (· = '\n')).length
  if c = '\n' && 2 ≤ more then some ⟨more, ['\n', '\n']⟩ else none

/-- The text in normal form: no zero-width space, at most one blank line in a row, and no blanks
at either end. -/
def normalize (t : Text) : Text :=
  Text.trim (Text.replaceBy blankLinesRule (dropZeroWidth t))

end Markdown.FromHtml
