import Markdown.Document
import Markdown.Highlight.Registry
import Markdown.Inline.Span
import Markdown.Text.Fragments

/-!
# Rendering blocks as HTML

Blocks are rendered in document order and joined by line feeds; if the document has footnotes,
their section follows. What is no block is a fault. Quoted lines without blocks, made by hand, are
split when they are rendered.
-/

namespace Markdown

/-- What the renderer needs to know beside the blocks. -/
structure Rendering where
  /-- The definitions of the document. -/
  references : References
  /-- Inline text is written for HTML before its rules apply. -/
  sanitize : Bool
  /-- The content of code blocks is highlighted. -/
  highlight : Bool
  /-- Colours in highlighted code get a swatch. -/
  swatches : Bool
  /-- Unfenced data is recognised in quoted lines that are split late. -/
  structuredData : Bool
  /-- The highlighters. -/
  registry : Highlight.Registry

namespace Rendering

/-- The HTML of an inline text. -/
def inlineHtml (e : Rendering) (t : Text) : Report Text :=
  Inline.render e.references e.sanitize t

/-- Every line feed becomes a line break; a break in front of one is not doubled. -/
def breakLines (t : Text) : Text :=
  (Text.replaceBy (Text.Rule.fixed "<br />\n".toList "<br />".toList) t).flatMap fun c =>
    if c = '\n' then "<br />".toList else [c]

/-- The HTML of an inline text of several lines. -/
def linesHtml (e : Rendering) (t : Text) : Report Text :=
  breakLines <$> e.inlineHtml t

/-- The style attribute of an alignment. -/
def alignmentAttribute (a : Option Alignment) : Text :=
  match a with
  | some a => " style=\"text-align: ".toList ++ a.name ++ ['"']
  | none => []

/-- The HTML of code. -/
def codeHtml (e : Rendering) (language content : Text) (detected : Bool) : Report Text := do
  let body ←
    if e.highlight && !language.isEmpty then
      e.registry.highlight (some language) none e.swatches content
    else pure (Html.escape content)
  let languageClass := if language.isEmpty then []
    else " class=\"language-".toList ++ Html.escape language ++ ['"']
  pure ("<pre><code".toList ++ languageClass ++ (if detected then " autodetected".toList else []) ++
    '>' :: body ++ "</code></pre>".toList)

/-- The cells of a row, in tags of the given name. -/
def cellsHtml (e : Rendering) (name : String) :
    List (Option Alignment) → List Text → Report Text
  | _, [] => pure []
  | alignments, cell :: cells => do
    let content ← e.inlineHtml cell
    let more ← e.cellsHtml name alignments.tail cells
    pure ('<' :: (name.toList ++ alignmentAttribute alignments.head?.join ++ '>' :: content ++
      '<' :: '/' :: (name.toList ++ '>' :: more)))

/-- The HTML of the rows of a table. -/
def rowsHtml (e : Rendering) (alignments : List (Option Alignment)) (rows : List (List Text)) :
    Report Text := do
  let parts ← rows.mapM fun row => do
    let cells ← e.cellsHtml "td" alignments row
    pure (Inline.element "tr" cells)
  pure parts.flatten

/-- The HTML of a table. -/
def tableHtml (e : Rendering) (headers : List Text) (alignments : List (Option Alignment))
    (rows : List (List Text)) : Report Text := do
  let head ← e.cellsHtml "th" alignments headers
  let body ← e.rowsHtml alignments rows
  pure ("<table><thead><tr>".toList ++ head ++ "</tr></thead>".toList ++
    (if rows.isEmpty then [] else Inline.element "tbody" body) ++ "</table>".toList)

/-- The HTML of a term and its definitions. -/
def definitionHtml (e : Rendering) (d : Definition) : Report Text := do
  let term ← e.inlineHtml d.term
  let meanings ← d.meanings.mapM fun m => Inline.element "dd" <$> e.inlineHtml m
  pure (Inline.element "dt" term ++ meanings.flatten)

/-- The HTML of a definition list. -/
def definitionsHtml (e : Rendering) (items : List Definition) : Report Text := do
  let parts ← items.mapM e.definitionHtml
  pure (Inline.element "dl" parts.flatten)

/-- The opening tag of a list. -/
def listOpening (ordered : Bool) (start : Int) (task : Bool) : Text :=
  if ordered then
    if start = 1 then "<ol>".toList else "<ol start=\"".toList ++ Text.ofInt start ++ "\">".toList
  else if task then "<ul class=\"task-list\">".toList
  else "<ul>".toList

/-- The closing tag of a list. -/
def listClosing (ordered : Bool) : Text :=
  if ordered then "</ol>".toList else "</ul>".toList

/-- The opening tag of an entry, with its box if it has one. -/
def itemOpening (checked : Option Bool) : Text :=
  match checked with
  | none => "<li>".toList
  | some ticked =>
    "<li class=\"task-list-item\"><input type=\"checkbox\"".toList ++
      (if ticked then " checked".toList else []) ++ " disabled /> ".toList

mutual

/-- The HTML of a block. `quoted` renders the text of quoted lines that have no blocks. -/
def blockHtml (e : Rendering) (quoted : Text → Report Text) : Block → Report Text
  | .heading level content => do
    let inner ← e.inlineHtml content
    let name := 'h' :: Text.ofInt level
    pure ('<' :: (name ++ '>' :: inner ++ '<' :: '/' :: (name ++ ['>'])))
  | .paragraph content => Inline.element "p" <$> e.linesHtml content
  | .code language content detected => e.codeHtml language content detected
  | .list ordered start items => do
    let inner ← e.itemsHtml quoted items
    pure (listOpening ordered start (isTaskList items) ++ inner ++ listClosing ordered)
  | .table headers alignments rows => e.tableHtml headers alignments rows
  | .quote content children => do
    let inner ← if children.isEmpty && !content.isEmpty then quoted content
      else e.blocksHtml quoted children
    pure (Inline.element "blockquote" inner)
  | .rule => pure "<hr />".toList
  | .definitions items => e.definitionsHtml items
  | .footnote _ _ => pure []
  | .foreign value => do
    Report.fail (.foreignBlock value)
    pure []

/-- The HTML of blocks, put together. -/
def blocksHtml (e : Rendering) (quoted : Text → Report Text) : List Block → Report Text
  | [] => pure []
  | b :: r => do
    let first ← e.blockHtml quoted b
    let more ← e.blocksHtml quoted r
    pure (first ++ more)

/-- The HTML of an entry. -/
def itemHtml (e : Rendering) (quoted : Text → Report Text) : Item → Report Text
  | .mk content checked children => do
    let text ← e.linesHtml content
    let inner ← e.blocksHtml quoted children
    pure (itemOpening checked ++ text ++ inner ++ "</li>".toList)

/-- The HTML of entries, put together. -/
def itemsHtml (e : Rendering) (quoted : Text → Report Text) : List Item → Report Text
  | [] => pure []
  | i :: r => do
    let first ← e.itemHtml quoted i
    let more ← e.itemsHtml quoted r
    pure (first ++ more)

end

/-- The HTML of the text of quoted lines. In the blocks of a text, quoted lines without blocks are
blank and show nothing. -/
def quotedHtml [Yaml.Reader] (e : Rendering) (content : Text) : Report Text := do
  let blocks ← Document.blocks e.structuredData (Text.lines content)
  e.blocksHtml (fun _ => pure []) blocks

/-- The HTML of a block of a document. -/
def html [Yaml.Reader] (e : Rendering) (b : Block) : Report Text :=
  e.blockHtml e.quotedHtml b

/-- The arrow of a footnote back to its reference. -/
def backArrow : Char := Char.ofNat 0x21a9

/-- The HTML of a footnote. -/
def footnoteHtml (e : Rendering) (f : Footnote) : Report Text := do
  let id := Html.escape f.id
  let content ← e.inlineHtml f.content
  pure ("<li id=\"fn-".toList ++ id ++ "\" class=\"footnote-item\">".toList ++ content ++
    " <a href=\"#fnref-".toList ++ id ++ "\" class=\"footnote-backref\">".toList ++
    backArrow :: "</a></li>".toList)

/-- The section of footnotes, in the order of their numbers. -/
def footnotesHtml (e : Rendering) : Report Text := do
  let notes := e.references.sortedFootnotes
  Report.log (.renderingFootnotes notes.length)
  let parts ← notes.mapM e.footnoteHtml
  pure ("<div class=\"footnotes\"><hr /><ol class=\"footnote-list\">".toList ++ parts.flatten ++
    "</ol></div>".toList)

/-- The HTML of a document. -/
def render [Yaml.Reader] (e : Rendering) (blocks : List Block) : Report Text := do
  let parts ← blocks.mapM e.html
  let notes ← if e.references.hasFootnotes then List.singleton <$> e.footnotesHtml else pure []
  pure ((Fragments.ofList (parts ++ notes)).join ['\n'])

end Rendering

/-- What the renderer needs for a configuration. -/
def Config.rendering (c : Config) (r : Highlight.Registry) (s : References) : Rendering :=
  ⟨s, c.sanitize, c.highlightCode, c.colorSwatches, c.structuredData, r⟩

/-- Markdown as HTML. The definitions of the text are added to those given. -/
def renderMarkdown [Yaml.Reader] (c : Config) (r : Highlight.Registry) (s : References) (v : Json) :
    Report Text × References :=
  let (tokens, s) := Document.tokenizeValue c v s
  (do (c.rendering r s).render (← tokens), s)

end Markdown
