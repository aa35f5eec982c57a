import Markdown.Html.Escape
import Markdown.Html.Part
import Markdown.Inline.Emphasis
import Markdown.Inline.Escape
import Markdown.Inline.Link
import Markdown.Json.Token
import Markdown.Report

/-!
# Inline text

`Inline.render` turns the inline text of a block into HTML. Its rules run one after another on the
whole text: code spans are put aside before emphasis sees their stars, images go before links, and
colours are looked for only between the tags made so far.
-/

namespace Markdown.Inline

/-! ### Code spans -/

/-- The character before the number of a code span that was put aside. -/
def codeOpen : Char := Char.ofNat 0xe100

/-- The character behind that number. -/
def codeClose : Char := Char.ofNat 0xe101

/-- The text between two backticks, if it starts at a character. -/
def codeSpan? (c : Char) (r : Text) : Option Text :=
  if c = '\x60' then
    let body := r.takeWhile (· ≠ '\x60')
    if body.isEmpty || (r.drop body.length).isEmpty then none else some body
  else none

/-- The code spans of a text and the text between them. -/
def codeStep (_ : Unit) (c : Char) (r : Text) : Text.Cut Unit (Option Text) :=
  match codeSpan? c r with
  | some body => ⟨body.length + 1, some body, ()⟩
  | none => ⟨0, none, ()⟩

/-- The code spans that have been put aside, in order. -/
abbrev Stash := List Text

/-- What stands for the code span with a number. -/
def codeMark (n : Nat) : Text :=
  codeOpen :: (Text.ofNat n ++ [codeClose])

/-- Puts the code spans among some segments aside; the first gets the given number. -/
def stashSpans (number : Nat) : List (Text.Segment (Option Text)) → Text × Stash
  | [] => ([], [])
  | ⟨some body, _⟩ :: r =>
    let rest := stashSpans (number + 1) r
    (codeMark number ++ rest.1, element "code" body :: rest.2)
  | ⟨none, t⟩ :: r =>
    let rest := stashSpans number r
    (t ++ rest.1, rest.2)

/-- Puts the code spans of a text aside, behind those already in the stash. -/
def protectCode (stash : Stash) (t : Text) : Text × Stash :=
  let p := stashSpans stash.length (Text.segment codeStep () t)
  (p.1, stash ++ p.2)

/-- The digits between the two marks of a code span, if they start at a character. -/
def codeNumber? (c : Char) (r : Text) : Option Text :=
  if c = codeOpen then
    let digits := r.takeWhile Text.isDigit
    if digits.isEmpty || (r.drop digits.length).head? ≠ some codeClose then none else some digits
  else none

/-- The marks of code spans in a text and the text between them. -/
def codeMarkStep (_ : Unit) (c : Char) (r : Text) : Text.Cut Unit (Option Text) :=
  match codeNumber? c r with
  | some digits => ⟨digits.length + 1, some digits, ()⟩
  | none => ⟨0, none, ()⟩

/-- What a segment stands for. A number beyond the stash stays as it is; one with too many digits
is a fault. -/
def unstash (stash : Stash) (p : Text.Segment (Option Text)) : Report Text :=
  match p.label with
  | none => pure p.text
  | some digits => do
    if Json.maxDigits < digits.length then Report.fail (.longNumeral digits.length)
    pure ((stash[Text.digitsValue digits]?).getD p.text)

/-- Puts the code spans back. -/
def restoreCode (stash : Stash) (t : Text) : Report Text :=
  if stash.isEmpty then pure t
  else do
    let parts ← (Text.segment codeMarkStep () t).mapM (unstash stash)
    pure parts.flatten

/-! ### Colours and line breaks -/

/-- How many hexadecimal digits a colour at the start of a text has: six, else three. The
character behind them must satisfy `p`. -/
def colorDigits? (p : Option Char → Bool) (t : Text) : Option Nat :=
  let fits (n : Nat) : Bool :=
    (t.take n).length = n && (t.take n).all Text.isHexDigit && p (t.drop n).head?
  if fits 6 then some 6 else if fits 3 then some 3 else none

/-- Whether a colour may stand behind a character: not inside a word or a character reference. -/
def colorAfter (before : Option Char) : Bool :=
  match before with
  | some c => !(c = '&' || Text.isWord c)
  | none => true

/-- A colour with its swatch. -/
def colorPreview (color : Text) : Text :=
  "<span class=\"color-preview\"><span class=\"color-swatch\" style=\"background-color: ".toList ++
    color ++ "\"></span>".toList ++ color ++ "</span>".toList

/-- `#RGB` and `#RRGGBB` as words of their own. -/
def colorRule : Text.Rule := fun before c r =>
  if c = '#' && colorAfter before then
    (colorDigits? (fun d => !((d.map Text.isWord).getD false)) r).map fun n =>
      ⟨n, colorPreview (c :: r.take n)⟩
  else none

/-- The text with swatches in front of its colours. A text that starts with an open tag stays. -/
def colorPreviews (t : Text) : Text :=
  Html.mapTexts (fun s => if s.startsWith ['<'] then s else Text.replaceBy colorRule s) t

/-- Two or more spaces at the end of a line. -/
def hardBreakRule : Text.Rule := fun _ c r =>
  if c = ' ' then
    let spaces := r.takeWhile (· = ' ')
    match r.drop spaces.length with
    | '\n' :: _ => if spaces.isEmpty then none else some ⟨spaces.length + 1, "<br />\n".toList⟩
    | _ => none
  else none

/-- The text with its hard line breaks. -/
def hardBreaks (t : Text) : Text :=
  Text.replaceBy hardBreakRule t

/-! ### All rules -/

/-- The rules between the code spans and their return. -/
def markUp (s : References) (sanitize : Bool) (t : Text) : Text :=
  hardBreaks (colorPreviews (footnotes s (autolinks (references s sanitize (imagesAndLinks
    (decorations (emphasis t)))))))

/-- The HTML of an inline text. When sanitizing, the text is written for HTML first. -/
def render (s : References) (sanitize : Bool) (t : Text) : Report Text := do
  let source := if sanitize then Html.escape t else t
  let (shielded, stash) := protectCode [] (protectEscapes source)
  let restored ← restoreCode stash (markUp s sanitize shielded)
  pure (revertEscapes restored)

end Markdown.Inline
