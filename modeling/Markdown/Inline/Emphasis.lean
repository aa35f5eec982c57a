import Markdown.Text.Letters
import Markdown.Text.Replace

/-!
# Emphasis and other paired marks

Spans between two equal marks. The rules go from the longest mark to the shortest, so that three
stars are tried before two and one. Spans end on the line where they start. Underscores count only
at the borders of words.
-/

namespace Markdown.Inline

/-- Whether a word character starts a text. -/
def startsWord : Text → Bool
  | c :: _ => Text.isWord c
  | [] => false

/-- Whether the character before a place is a word character. -/
def endsWord : Option Char → Bool
  | some c => Text.isWord c
  | none => false

/-- A character of the same line. -/
def inLine (c : Char) : Bool :=
  c ≠ '\n'

/-- A span between marks of several characters: the shortest text on the line with the mark
behind it. With `words`, no word character may stand before or behind the span. -/
def longSpan (mark : Text) (words : Bool) (wrap : Text → Text) : Text.Rule := fun before c r =>
  if words && endsWord before then none
  else
    match Text.after? mark (c :: r) with
    | none => none
    | some inner =>
      let closes (t : Text) : Bool :=
        match Text.after? mark t with
        | some rest => !(words && startsWord rest)
        | none => false
      (Text.shortest? inLine closes inner).map fun n =>
        ⟨2 * mark.length + n - 1, wrap (inner.take n)⟩

/-- The conditions on a span between single marks. -/
structure SpanStyle where
  /-- The mark. -/
  mark : Char
  /-- Characters inside the span, the mark excepted. -/
  inner : Char → Bool
  /-- What may not stand before the span. -/
  notAfter : Char → Bool
  /-- What may not stand behind the span. -/
  notBefore : Char → Bool
  /-- Whether the span may begin with a character. -/
  first : Char → Bool
  /-- Whether the span may end with a character. -/
  last : Char → Bool

/-- A span between single marks: all characters up to the next mark. -/
def shortSpan (s : SpanStyle) (wrap : Text → Text) : Text.Rule := fun before c r =>
  if c = s.mark && !((before.map s.notAfter).getD false) then
    let inner := r.takeWhile fun c => c ≠ s.mark && s.inner c
    match inner.head?, inner.getLast?, r.drop inner.length with
    | some a, some z, m :: rest =>
      if m = s.mark && s.first a && s.last z && !((rest.head?.map s.notBefore).getD false) then
        some ⟨inner.length + 1, wrap inner⟩
      else none
    | _, _, _ => none
  else none

/-- Any character. -/
def anyChar (_ : Char) : Bool := true

/-- No character. -/
def noChar (_ : Char) : Bool := false

/-- A character that is not blank. -/
def visible (c : Char) : Bool := !Text.isBlank c

/-- Emphasis between stars. -/
def starStyle : SpanStyle :=
  ⟨'*', inLine, (· = '*'), (· = '*'), visible, visible⟩

/-- Emphasis between underscores at the borders of words. -/
def underscoreStyle : SpanStyle :=
  ⟨'_', inLine, Text.isWord, Text.isWord, visible, anyChar⟩

/-- Raised text. -/
def caretStyle : SpanStyle :=
  ⟨'^', visible, noChar, noChar, anyChar, anyChar⟩

/-- Lowered text. -/
def tildeStyle : SpanStyle :=
  ⟨'~', visible, (· = '~'), (· = '~'), anyChar, anyChar⟩

/-- The text between an opening and a closing tag. -/
def element (name : String) (t : Text) : Text :=
  '<' :: (name.toList ++ '>' :: (t ++ '<' :: '/' :: (name.toList ++ ['>'])))

/-- The rules of emphasis in the order of their application. -/
def emphasisRules : List Text.Rule :=
  [longSpan "***".toList false fun t => element "strong" (element "em" t),
    longSpan "___".toList true fun t => element "strong" (element "em" t),
    longSpan "**".toList false (element "strong"),
    longSpan "__".toList true (element "strong"),
    shortSpan starStyle (element "em"),
    shortSpan underscoreStyle (element "em")]

/-- The rules of deletions, marks, raised and lowered text in the order of their application. -/
def decorationRules : List Text.Rule :=
  [longSpan "~~".toList false (element "del"),
    longSpan "==".toList false (element "mark"),
    shortSpan caretStyle (element "sup"),
    shortSpan tildeStyle (element "sub")]

/-- Applies rules one after another, each to the whole text. -/
def applyRules (rules : List Text.Rule) (t : Text) : Text :=
  rules.foldl (fun t rule => Text.replaceBy rule t) t

/-- The text with its emphasis. -/
def emphasis (t : Text) : Text :=
  applyRules emphasisRules t

/-- The text with its deletions, marks, raised and lowered parts. -/
def decorations (t : Text) : Text :=
  applyRules decorationRules t

end Markdown.Inline
