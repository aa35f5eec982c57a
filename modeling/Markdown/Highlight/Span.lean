import Markdown.Html.Escape
import Markdown.Text.Segment

/-!
# Highlighted spans

Highlighting cuts code into spans of a fixed set of classes. A span without a class is shown as
plain text.
-/

namespace Markdown.Highlight

/-- What a span of code is. -/
inductive SpanClass where
  /-- A keyword or a command. -/
  | keyword
  /-- A string. -/
  | string
  /-- A number. -/
  | number
  /-- A truth value. -/
  | boolean
  /-- A word for nothing. -/
  | null
  /-- A comment. -/
  | comment
  /-- Punctuation. -/
  | punctuation
  /-- A key. -/
  | key
  /-- A template literal. -/
  | template
  /-- An operator. -/
  | operator
  /-- A regular expression. -/
  | regex
  /-- A variable. -/
  | variable
  /-- A selector of a style sheet. -/
  | selector
  /-- A property of a style sheet. -/
  | property
  /-- A value in a style sheet. -/
  | value
  /-- An at-rule of a style sheet. -/
  | atRule
  /-- The name or the end of a tag. -/
  | tag
  /-- The name of an attribute. -/
  | attribute
  /-- A document type. -/
  | doctype
  deriving DecidableEq, Repr

/-- The name of a class in style sheets. -/
def SpanClass.name : SpanClass → Text
  | .keyword => "keyword".toList
  | .string => "string".toList
  | .number => "number".toList
  | .boolean => "boolean".toList
  | .null => "null".toList
  | .comment => "comment".toList
  | .punctuation => "punctuation".toList
  | .key => "key".toList
  | .template => "template".toList
  | .operator => "operator".toList
  | .regex => "regex".toList
  | .variable => "variable".toList
  | .selector => "selector".toList
  | .property => "property".toList
  | .value => "value".toList
  | .atRule => "at-rule".toList
  | .tag => "tag".toList
  | .attribute => "attribute".toList
  | .doctype => "doctype".toList

/-- A run of code with its class. -/
abbrev Span := Text.Segment (Option SpanClass)

/-- HTML in the tags of a class with some name. -/
def wrapNamed (name html : Text) : Text :=
  "<span class=\"syntax-".toList ++ name ++ "\">".toList ++ html ++ "</span>".toList

/-- HTML in the tags of a class. -/
def wrap (c : SpanClass) (html : Text) : Text :=
  wrapNamed c.name html

/-- The HTML of a span. -/
def spanHtml (s : Span) : Text :=
  match s.label with
  | none => Html.escape s.text
  | some c => wrap c (Html.escape s.text)

/-- The HTML of several spans. -/
def spansHtml (spans : List Span) : Text :=
  spans.flatMap spanHtml

/-- A cut that goes on in the same or another state. -/
def cut {σ : Type} (extra : Nat) (c : Option SpanClass) (s : σ) : Text.Cut σ (Option SpanClass) :=
  ⟨extra, c, s⟩

/-- How many characters follow an opening quote, up to the next such quote or to the end. With
`escapes`, a backslash hides the character behind it; with `lines`, a line feed ends the string
before it. -/
def quotedLength (escapes lines : Bool) (quote : Char) : Text → Nat
  | [] => 0
  | c :: r =>
    if escapes && c = '\\' then
      match r with
      | [] => 1
      | _ :: r => quotedLength escapes lines quote r + 2
    else if lines && c = '\n' then 0
    else if c = quote then 1
    else quotedLength escapes lines quote r + 1

/-- How many characters a text has up to a mark and with it, or to its end. -/
def lengthThrough (mark : Text) (t : Text) : Nat :=
  match Text.cut? mark t with
  | some (before, _) => before.length + mark.length
  | none => t.length

/-- The length of the run of characters that satisfy `p`. -/
def runLength (p : Char → Bool) (t : Text) : Nat :=
  (t.takeWhile p).length

end Markdown.Highlight
