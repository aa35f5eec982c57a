import Markdown.Html.Part
import Markdown.Inline.Span

/-!
# Colours in highlighted code

Hexadecimal colours of three or six digits get a swatch. Only text between tags is looked at, and
no number of a character reference is taken for a colour.
-/

namespace Markdown.Highlight

/-- Whether a text is a colour; one line feed may follow it. -/
def isColor (t : Text) : Bool :=
  match t with
  | '#' :: r =>
    let digits := if r.getLast? == some '\n' then r.dropLast else r
    (digits.length = 3 || digits.length = 6) && digits.all Text.isHexDigit
  | _ => false

/-- A colour with its swatch. -/
def swatch (color : Text) : Text :=
  "<span class=\"color-preview\" style=\"--swatch-color: ".toList ++ color ++ "\">".toList ++
    color ++ "</span>".toList

/-- `#RGB` and `#RRGGBB`, unless more hexadecimal digits follow. -/
def swatchRule : Text.Rule := fun before c r =>
  if c = '#' && Inline.colorAfter before then
    (Inline.colorDigits? (fun d => !((d.map Text.isHexDigit).getD false)) r).map fun n =>
      ⟨n, swatch (c :: r.take n)⟩
  else none

/-- The HTML with swatches for the colours in its text. -/
def decorateColors (html : Text) : Text :=
  Html.mapTexts (Text.replaceBy swatchRule) html

end Markdown.Highlight
