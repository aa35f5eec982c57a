import Markdown.Html.Reference
import Markdown.Html.Token

/-!
# Trees from tokens

Tokens are put together to a tree with a stack of open elements. An end tag closes the innermost
open element of its name with everything inside it, and nothing if none is open; what is still open
at the end is closed there. Elements without content close at once, and so does a tag that ends in
a slash. An element without content whose tag has no slash makes one later end tag of its name void.
-/

namespace Markdown.Html

/-- The elements without content. -/
def emptyElements : List Text :=
  ["area".toList, "base".toList, "br".toList, "col".toList, "embed".toList, "hr".toList,
    "img".toList, "input".toList, "keygen".toList, "link".toList, "menuitem".toList,
    "meta".toList, "param".toList, "source".toList, "track".toList, "wbr".toList,
    "basefont".toList, "bgsound".toList, "command".toList, "frame".toList, "image".toList,
    "isindex".toList, "nextid".toList, "spacer".toList]

/-- An element whose end has not been read, with its children so far, the latest first. -/
structure OpenElement where
  /-- The element. -/
  tag : Tag
  /-- Its children. -/
  children : List Node
  deriving Repr

/-- The element with its children. -/
def OpenElement.close (e : OpenElement) : Node :=
  .element e.tag e.children.reverse

/-- A tree that is being put together. -/
structure Growth where
  /-- The nodes outside all open elements, the latest first. -/
  outside : List Node
  /-- The open elements, the innermost first. -/
  opened : List OpenElement
  /-- The text since the last node, the latest piece first. -/
  pending : List Text
  /-- The names of the elements without content for which an end tag may still come. -/
  closed : List Text
  deriving Repr

namespace Growth

/-- Nothing has been read. -/
def empty : Growth :=
  ⟨[], [], [], []⟩

/-- Adds a node to the innermost open element. -/
def add (g : Growth) (n : Node) : Growth :=
  match g.opened with
  | [] => { g with outside := n :: g.outside }
  | e :: r => { g with opened := { e with children := n :: e.children } :: r }

/-- White space of ASCII, the vertical tab excepted. -/
def isSpace (c : Char) : Bool :=
  c = ' ' || c = '\n' || c = '\t' || c = '\x0c' || c = '\r'

/-- A run of white space shrinks to a line feed or a space, unless it is preformatted. -/
def shrink (g : Growth) (t : Text) : Text :=
  if (g.opened.any fun e => e.tag.isOneOf ["pre", "textarea"]) || !t.all isSpace then t
  else if '\n' ∈ t then ['\n']
  else [' ']

/-- The kind of ordinary text inside the open elements. -/
def textKind (g : Growth) : TextKind :=
  (g.opened.findSome? fun e => e.tag.textKind?).getD .plain

/-- Makes a node of the pending text. -/
def flush (g : Growth) : Growth :=
  if g.pending.isEmpty then g
  else
    { g with pending := [] }.add (.text g.textKind (g.shrink g.pending.reverse.flatten))

/-- Adds text. -/
def write (g : Growth) (t : Text) : Growth :=
  { g with pending := t :: g.pending }

/-- Adds something that is no text of the document. -/
def aside (g : Growth) (kind : TextKind) (content : Text) : Growth :=
  g.flush.add (.text kind (g.shrink content))

/-- Opens an element. -/
def enter (g : Growth) (tag : Tag) : Growth :=
  let g := g.flush
  { g with opened := ⟨tag, []⟩ :: g.opened }

/-- Closes the innermost open elements up to the first one of a name, itself included; `inner` are
the nodes that have been closed inside them. -/
def closeThrough (name : Text) (inner : List Node) (outside : List Node) :
    List OpenElement → List OpenElement × List Node
  | [] => ([], inner ++ outside)
  | e :: r =>
    let node := { e with children := inner ++ e.children }.close
    if e.tag.name == name then
      match r with
      | [] => ([], node :: outside)
      | p :: r => ({ p with children := node :: p.children } :: r, outside)
    else closeThrough name [node] outside r

/-- Closes the innermost open element of a name with everything inside it. -/
def leave (g : Growth) (name : Text) : Growth :=
  let g := g.flush
  if g.opened.any fun e => e.tag.name == name then
    let (opened, outside) := closeThrough name [] g.outside g.opened
    { g with opened := opened, outside := outside }
  else g

/-- Reads an end tag, unless an element without content has made it void. -/
def endTag (g : Growth) (name : Text) : Growth :=
  if g.closed.contains name then { g with closed := g.closed.erase name } else g.leave name

/-- Reads a start tag, which is `closed` if it ends in a slash. -/
def startTag (g : Growth) (tag : Tag) (closed : Bool) : Growth :=
  let g := g.enter tag
  if closed then g.leave tag.name
  else if emptyElements.contains tag.name then
    let g := g.leave tag.name
    { g with closed := tag.name :: g.closed }
  else g

/-- The nodes when the input has ended: everything open is closed. -/
def finish (g : Growth) : List Node :=
  let g := g.flush
  let inner := g.opened.foldl
    (fun inner e => [OpenElement.close { e with children := inner ++ e.children }]) []
  (inner ++ g.outside).reverse

end Growth

/-- The character that stands for what is none. -/
def replacementChar : Char := Char.ofNat 0xfffd

/-- The text of a numeric reference. Small numbers are bytes of the western code page; zero and the
numbers that belong to no character give the replacement character. -/
def characterOf (n : Nat) : Text :=
  match westernBytes.find? fun b => b.1 == n with
  | some b => [Char.ofNat b.2]
  | none => [if n != 0 && n.isValidChar then Char.ofNat n else replacementChar]

/-- The tag with its character references replaced. Of several attributes with one name the last
counts. -/
def StartTag.resolve (t : StartTag) : Report Tag := do
  let attributes ← t.attributes.mapM fun a => do
    pure (a.1, ← unescape a.2)
  pure ⟨t.name, attributes.foldl (fun known a => known.filter (fun k => k.1 ≠ a.1) ++ [a]) []⟩

/-- Adds a token to a tree. -/
def Growth.read (g : Growth) : Token → Report Growth
  | .text t => pure (g.write t)
  | .number digits true => pure (g.write (characterOf (Text.hexValue digits)))
  | .number digits false => do
    if maxReferenceDigits < digits.length then Report.fail (.longNumeral digits.length)
    pure (g.write (characterOf (Text.digitsValue digits)))
  | .entity name => pure (g.write (((entity? name).map (·.value)).getD ('&' :: name)))
  | .opening t => do
    pure (g.startTag (← t.resolve) t.closed)
  | .closing name => pure (g.endTag name)
  | .aside kind content => pure (g.aside kind content)
  | .refused fault => do
    Report.fail fault
    pure g
  | .skipped => pure g

/-- The tree of a text of HTML. -/
def parse (t : Text) : Report (List Node) := do
  let g ← (Token.scan t).foldlM Growth.read .empty
  pure g.finish

end Markdown.Html
