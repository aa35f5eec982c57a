import Markdown.FromHtml.Mark
import Markdown.Html.Node
import Markdown.Report

/-!
# Inline content of HTML

The Markdown of text with inline formatting. An element without inline meaning gives only its
content. A hook, if there is one, is asked first about every element that is met.
-/

namespace Markdown.FromHtml

open Html (Node Tag TextKind)

/-- A hook for elements. It gets the tag of an element and its children; its answer, if it gives one,
is the Markdown of the element. -/
abbrev Hook := Tag → List Node → Option Text

/-- Asks the hook about an element. -/
def consult (hook : Option Hook) (tag : Tag) (children : List Node) : Report (Option Text) :=
  match hook with
  | none => pure none
  | some h => do
    Report.note (.visited tag.name)
    pure (h tag children)

/-- The Markdown of an element: what the hook answers, else its own conversion. -/
def orElse (hook : Option Hook) (tag : Tag) (children : List Node) (own : Report Text) :
    Report Text := do
  match ← consult hook tag children with
  | some answer => pure answer
  | none => own

/-- The delimiters of formatted text. -/
def delimiters : List (String × String) :=
  [("strong", "**"), ("b", "**"), ("em", "*"), ("i", "*"), ("del", "~~"), ("s", "~~"),
    ("mark", "=="), ("sup", "^"), ("sub", "~")]

/-- The delimiter of an element, if it formats its text. -/
def delimiter? (tag : Tag) : Option Text :=
  (delimiters.find? fun d => tag.isNamed d.1).map fun d => d.2.toList

/-- Whether a run of text is shown. -/
def shows (kind : TextKind) : Bool :=
  match kind with
  | .literal | .comment | .doctype | .instruction | .declaration => false
  | _ => true

/-- The Markdown of a run of text. -/
def textMarkdown (kind : TextKind) (content : Text) : Text :=
  if shows kind then dropZeroWidth content else []

/-- A link. -/
def link (tag : Tag) (content : Text) : Text :=
  '[' :: content ++ "](".toList ++ tag.value "href" ++ [')']

/-- An image. -/
def image (tag : Tag) : Text :=
  "![".toList ++ tag.value "alt" ++ "](".toList ++ tag.value "src" ++ [')']

/-- The identifier in the address of a footnote; one line feed may follow it. -/
def footnoteId? (address : Text) : Option Text :=
  match Text.after? "#fn-".toList address with
  | some r =>
    let id := if r.getLast? = some '\n' then r.dropLast else r
    if id.isEmpty || id.contains '\n' then none else some id
  | none => none

/-- Whether a character may stand around the number of a footnote. -/
def aroundNumber (c : Char) : Bool :=
  c = '[' || c = ']' || c = ' '

/-- A reference to a footnote: by the identifier in its address, else by its text. -/
def footnoteReference (tag : Tag) (children : List Node) : Text :=
  let id := (footnoteId? (tag.value "href")).getD
    (Text.trimEndBy aroundNumber (Text.trimStartBy aroundNumber (tag.innerText children)))
  "[^".toList ++ id ++ [']']

/-- Code between backticks; nothing if there is none. -/
def codeSpan (t : Text) : Text :=
  if t.isEmpty then [] else '\x60' :: t ++ ['\x60']

/-- How an element of inline content is shown. -/
inductive InlineRole where
  /-- By its text alone. -/
  | plain
  /-- As a reference to a footnote. -/
  | footnote
  /-- Not at all. -/
  | hidden
  /-- As code. -/
  | code
  /-- As a line break. -/
  | lineBreak
  /-- As an image. -/
  | image
  /-- As a link. -/
  | link
  /-- By its content between delimiters. -/
  | wrapped (delimiter : Text)
  /-- By its content. -/
  | transparent
  deriving DecidableEq, Repr

/-- The role of an element in inline content. -/
def inlineRole (tag : Tag) : InlineRole :=
  if tag.isNamed "span" && tag.hasClass "color-preview" then .plain
  else if tag.isNamed "a" then
    if tag.hasClass "footnote-ref" then .footnote
    else if tag.hasClass "footnote-backref" then .hidden
    else .link
  else if tag.isNamed "code" then .code
  else if tag.isNamed "br" then .lineBreak
  else if tag.isNamed "img" then .image
  else
    match delimiter? tag with
    | some d => .wrapped d
    | none => .transparent

/-- A line break. -/
def lineBreak : Text := "  \n".toList

mutual

/-- The inline Markdown of a node. -/
def inlineNode (hook : Option Hook) : Node → Report Text
  | .text kind content => pure (textMarkdown kind content)
  | .element tag children => orElse hook tag children (
    match inlineRole tag with
    | .plain => pure (tag.innerText children)
    | .footnote => pure (footnoteReference tag children)
    | .hidden => pure []
    | .code => pure (codeSpan (dropZeroWidth (tag.innerText children)))
    | .lineBreak => pure lineBreak
    | .image => pure (image tag)
    | .link => link tag <$> inlineNodes hook children
    | .wrapped d => wrap d <$> inlineNodes hook children
    | .transparent => inlineNodes hook children)

/-- The inline Markdown of some nodes, put together. -/
def inlineNodes (hook : Option Hook) : List Node → Report Text
  | [] => pure []
  | n :: r => do
    let first ← inlineNode hook n
    let more ← inlineNodes hook r
    pure (first ++ more)

end

end Markdown.FromHtml
