import Markdown.Highlight.Css
import Markdown.Highlight.Script
import Markdown.Text.Caseless

/-!
# HTML

A scanner for HTML source. The body of a style or script element is left to the scanner of its
language; it reaches up to the next end tag of that name.
-/

namespace Markdown.Highlight.Html

/-- Where the scanner is. -/
inductive Mode where
  /-- Between tags. -/
  | content
  /-- Inside the tag with a name. -/
  | tag (name : Text)
  /-- Behind an equals sign inside a tag. -/
  | value (name : Text)
  /-- Inside a style sheet of which some characters are left. -/
  | style (left : Nat) (s : Css.State)
  /-- Inside a script of which some characters are left. -/
  | script (left : Nat) (expression : Bool)
  deriving DecidableEq, Repr

/-- How many characters stand before the next end tag of a name. -/
def bodyLength (name : Text) : Text → Nat
  | [] => 0
  | c :: r =>
    if c = '<' && r.head? = some '/' && (Text.afterWord? name (r.drop 1)).isSome then 0
    else bodyLength name r + 1

/-- The mode behind the end of a start tag. -/
def afterTag (name r : Text) : Mode :=
  if name = "style".toList then
    let n := bodyLength name r
    if n = 0 then .content else .style n Css.State.initial
  else if name = "script".toList then
    let n := bodyLength name r
    if n = 0 then .content else .script n true
  else .content

/-- A character of a tag name. -/
def isNameChar (c : Char) : Bool :=
  Text.isWord c || c = ':' || c = '.' || c = '-'

/-- A character of an attribute name. -/
def isAttributeChar (c : Char) : Bool :=
  !(Text.isBlank c || c = '=' || c = '>' || c = '/' || c = '"' || c = '\'')

/-- A character of a value without quotes. -/
def isBareChar (c : Char) : Bool :=
  !(Text.isBlank c || c = '>')

/-- The length of the opening of a tag, its bracket and its name; zero if there is none. -/
def tagLength (t : Text) : Nat :=
  match t with
  | '<' :: '/' :: c :: r => if Text.isAsciiLetter c then 3 + runLength isNameChar r else 0
  | '<' :: c :: r => if Text.isAsciiLetter c then 2 + runLength isNameChar r else 0
  | _ => 0

/-- A span between tags. -/
def contentStep (c : Char) (r : Text) : Text.Cut Mode (Option SpanClass) :=
  let t := c :: r
  if "<!--".toList.isPrefixOf t then
    cut (3 + lengthThrough "-->".toList (t.drop 4)) (some .comment) .content
  else if "<![CDATA[".toList.isPrefixOf t then
    cut (8 + lengthThrough "]]>".toList (t.drop 9)) (some .comment) .content
  else
    let doctype := match t with
      | '<' :: '!' :: d :: _ => Text.isAsciiLetter d
      | _ => false
    let n := tagLength t
    if doctype then cut (lengthThrough ['>'] t - 1) (some .doctype) .content
    else if n ≠ 0 then
      cut (n - 1) (some .tag) (.tag (Text.lower ((t.take n).dropWhile (· = '<'))))
    else if c = '<' then cut 0 none .content
    else cut (runLength (· ≠ '<') r) none .content

/-- A span inside a tag. -/
def tagStep (name : Text) (c : Char) (r : Text) : Text.Cut Mode (Option SpanClass) :=
  if c = '/' && r.head? = some '>' then cut 1 (some .tag) .content
  else if c = '>' then cut 0 (some .tag) (afterTag name r)
  else if Text.isBlank c then cut (runLength Text.isBlank r) none (.tag name)
  else if c = '=' then cut 0 (some .punctuation) (.value name)
  else if c = '"' || c = '\'' then cut (lengthThrough [c] r) (some .string) (.tag name)
  else if isAttributeChar c then cut (runLength isAttributeChar r) (some .attribute) (.tag name)
  else cut 0 none (.tag name)

/-- A span behind an equals sign. -/
def valueStep (name : Text) (c : Char) (r : Text) : Text.Cut Mode (Option SpanClass) :=
  if Text.isBlank c then cut (runLength Text.isBlank r) none (.value name)
  else if c = '"' || c = '\'' then cut (lengthThrough [c] r) (some .string) (.tag name)
  else if isBareChar c then cut (runLength isBareChar r) (some .string) (.tag name)
  else tagStep name c r

/-- A span of an embedded language, of which `left` characters are left. -/
def embed {σ : Type} (left : Nat) (next : Nat → σ → Mode)
    (inner : Text → Text.Cut σ (Option SpanClass)) (r : Text) :
    Text.Cut Mode (Option SpanClass) :=
  let found := inner (r.take (left - 1))
  let extra := min found.extra (left - 1)
  let rest := left - 1 - extra
  cut extra found.label (if rest = 0 then .content else next rest found.state)

/-- The span that starts at a character. -/
def step (mode : Mode) (c : Char) (r : Text) : Text.Cut Mode (Option SpanClass) :=
  match mode with
  | .content => contentStep c r
  | .tag name => tagStep name c r
  | .value name => valueStep name c r
  | .style left s => embed left .style (Css.step s c) r
  | .script left expression => embed left .script (Script.step [] expression c) r

/-- The spans of HTML source. -/
def spans (code : Text) : List Span :=
  Text.segment step .content code

end Markdown.Highlight.Html
