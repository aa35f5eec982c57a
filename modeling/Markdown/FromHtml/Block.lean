import Markdown.FromHtml.Heading
import Markdown.FromHtml.Listing
import Markdown.FromHtml.Table

/-!
# Block content of HTML

The Markdown of elements that stand between blocks: paragraphs, code, quotes, lists, tables,
definition lists, rules and footnotes. Inline elements that are met here are converted the same way
as inside a paragraph. Other elements give the Markdown of their children.
-/

namespace Markdown.FromHtml

open Html (Node Tag)

/-- A fenced block. -/
def fence (code language : Text) : Text :=
  "\x60\x60\x60".toList ++ language ++ '\n' :: code ++ "\n\x60\x60\x60\n\n".toList

/-- The language that a class names behind `language-`, if a word character follows. -/
def languageIn? : Text → Option Text
  | [] => none
  | c :: r =>
    match Text.after? "language-".toList (c :: r) with
    | some t =>
      let word := t.takeWhile Text.isWord
      if word.isEmpty then languageIn? r else some word
    | none => languageIn? r

/-- A fenced block for preformatted text. Its language is that of the code inside it. -/
def preformatted (tag : Tag) (children : List Node) : Text :=
  match Node.findAmong? (·.isNamed "code") children with
  | some (code, inner) =>
    fence (dropZeroWidth (code.innerText inner))
      ((languageIn? ([' '].intercalate code.classes)).getD [])
  | none => fence (dropZeroWidth (tag.innerText children)) []

/-- A fenced block for the mount point of a code viewer inside an element. -/
def mountedCode (children : List Node) : Text :=
  match Node.findAmong? (·.hasClass "code-viewer-mount-point") children with
  | some (mount, _) => fence (mount.value "data-content") (mount.value "data-language")
  | none => fence [] []

/-- A text with a quotation mark before each of its lines. -/
def quote (t : Text) : Text :=
  Text.unlines ((Text.lines (Text.trim t)).map fun line =>
    if line.isEmpty then ['>'] else '>' :: ' ' :: line) ++ ['\n', '\n']

/-- Lines with a blank line behind them; nothing if there are none. -/
def paragraphOf (lines : List Text) : Text :=
  if lines.isEmpty then [] else Text.unlines lines ++ ['\n', '\n']

/-- The Markdown of a definition list: a line for each term and each definition. -/
def definitions (hook : Option Hook) (children : List Node) : Report Text := do
  let lines ← (Node.elements (·.isOneOf ["dt", "dd"]) children).mapM fun e => do
    let t ← inlineNodes hook e.2
    pure (if e.1.isNamed "dt" then Text.trim t else ':' :: ' ' :: Text.trim t)
  pure (paragraphOf lines)

/-- The identifier of a footnote in its entry. -/
def footnoteId (item : Tag) : Text :=
  let id := item.value "id"
  (Text.after? "fn-".toList id).getD id

/-- The Markdown of a section of footnotes: a definition for each of its entries. -/
def footnotes (hook : Option Hook) (children : List Node) : Report Text := do
  let items := Node.selectAmong (fun t => t.isNamed "li" && t.hasClass "footnote-item")
    (fun _ => false) children
  let lines ← items.mapM fun item => do
    let t ← inlineNodes hook item.2
    pure ("[^".toList ++ footnoteId item.1 ++ "]: ".toList ++ Text.trim t)
  pure (paragraphOf lines)

/-- What surrounds a node. -/
structure Surroundings where
  /-- Whether its parent is preformatted text. -/
  preformatted : Bool
  /-- Whether it stands under the head of a table. -/
  underHead : Bool
  deriving DecidableEq, Repr

/-- What surrounds the children of an element. -/
def Surroundings.inside (s : Surroundings) (tag : Tag) : Surroundings :=
  ⟨tag.isNamed "pre", s.underHead || tag.isNamed "thead"⟩

/-- How an element is shown between blocks. -/
inductive BlockRole where
  /-- As a heading. -/
  | heading
  /-- As a paragraph. -/
  | paragraph
  /-- As a line break. -/
  | lineBreak
  /-- As a thematic break. -/
  | rule
  /-- As code. -/
  | code
  /-- As a fenced block. -/
  | preformatted
  /-- As a quote. -/
  | quote
  /-- As a list. -/
  | list
  /-- By its inline content. -/
  | inline
  /-- As a table. -/
  | table
  /-- As a definition list. -/
  | definitions
  /-- As an image. -/
  | image
  /-- As a reference to a footnote. -/
  | footnote
  /-- As a link. -/
  | link
  /-- As the fenced block of a code viewer. -/
  | mountedCode
  /-- As footnote definitions. -/
  | footnotes
  /-- By its text alone. -/
  | plain
  /-- By its inline content between delimiters. -/
  | wrapped (delimiter : Text)
  /-- By its children. -/
  | transparent
  deriving DecidableEq, Repr

/-- The roles of elements that are known by their name. -/
def rolesByName : List (String × BlockRole) :=
  [("p", .paragraph), ("br", .lineBreak), ("hr", .rule), ("code", .code), ("pre", .preformatted),
    ("blockquote", .quote), ("ul", .list), ("ol", .list), ("li", .inline), ("table", .table),
    ("dl", .definitions), ("img", .image)]

/-- The role of an element between blocks. -/
def blockRole (tag : Tag) : BlockRole :=
  if (headingLevel? tag).isSome then .heading
  else
    match rolesByName.find? fun r => tag.isNamed r.1 with
    | some r => r.2
    | none =>
      if tag.isNamed "a" then if tag.hasClass "footnote-ref" then .footnote else .link
      else if tag.isNamed "div" && tag.has "data-code-block-id" then .mountedCode
      else if tag.isNamed "div" && tag.hasClass "footnotes" then .footnotes
      else if tag.isNamed "span" && tag.hasClass "color-preview" then .plain
      else
        match delimiter? tag with
        | some d => .wrapped d
        | none => .transparent

/-- The elements that are known to have nothing of their own to show. -/
def transparentNames : List String :=
  ["html", "body", "div", "span", "section", "article", "main", "header", "footer", "aside",
    "nav", "figure", "figcaption", "thead", "tbody", "tr", "td", "th", "dt", "dd"]

mutual

/-- The Markdown of a node between blocks. -/
def blockNode (hook : Option Hook) (s : Surroundings) : Node → Report Text
  | .text kind content => pure (textMarkdown kind content)
  | .element tag children => orElse hook tag children (
    match blockRole tag with
    | .heading => pure (heading tag children)
    | .paragraph => (· ++ ['\n', '\n']) <$> inlineNodes hook children
    | .lineBreak => pure lineBreak
    | .rule => pure "---\n\n".toList
    | .code =>
      pure (if s.preformatted then tag.innerText children else codeSpan (tag.innerText children))
    | .preformatted => pure (preformatted tag children)
    | .quote => quote <$> blockNodes hook (s.inside tag) children
    | .list => listing hook tag children
    | .inline => inlineNodes hook children
    | .table => table hook s.underHead children
    | .definitions => definitions hook children
    | .image => pure (image tag)
    | .footnote => pure (footnoteReference tag children)
    | .link => link tag <$> inlineNodes hook children
    | .mountedCode => pure (mountedCode children)
    | .footnotes => footnotes hook children
    | .plain => pure (tag.innerText children)
    | .wrapped d => wrap d <$> inlineNodes hook children
    | .transparent => do
      if !tag.isOneOf transparentNames then Report.log (.noConverter tag.name)
      blockNodes hook (s.inside tag) children)

/-- The Markdown of some nodes between blocks, put together. -/
def blockNodes (hook : Option Hook) (s : Surroundings) : List Node → Report Text
  | [] => pure []
  | n :: r => do
    let first ← blockNode hook s n
    let more ← blockNodes hook s r
    pure (first ++ more)

end

end Markdown.FromHtml
