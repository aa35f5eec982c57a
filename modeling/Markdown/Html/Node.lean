import Markdown.Text.Basic

/-!
# Trees of HTML

The tree that a text of HTML stands for: runs of text and elements with their children, in
document order. A run of text knows where it comes from, since only some runs are text for a
reader.
-/

namespace Markdown.Html

/-- The name and the attributes of an element. -/
structure Tag where
  /-- The name, in lower case. -/
  name : Text
  /-- The attributes, each name once. -/
  attributes : List (Text × Text)
  deriving DecidableEq, Repr

/-- Where a run of text comes from. -/
inductive TextKind where
  /-- Ordinary text. -/
  | plain
  /-- A section of literal text. -/
  | literal
  /-- A comment. -/
  | comment
  /-- A document type. -/
  | doctype
  /-- A processing instruction. -/
  | instruction
  /-- Another declaration. -/
  | declaration
  /-- The body of a style sheet. -/
  | style
  /-- The body of a script. -/
  | script
  /-- Text inside a template. -/
  | template
  /-- Text of a ruby annotation. -/
  | rubyText
  /-- A parenthesis around a ruby annotation. -/
  | rubyParenthesis
  deriving DecidableEq, Repr

/-- A node of a tree. -/
inductive Node where
  /-- A run of text. -/
  | text (kind : TextKind) (content : Text)
  /-- An element with its children. -/
  | element (tag : Tag) (children : List Node)

deriving instance Repr for Node

namespace Tag

/-- The value of an attribute. -/
def value? (t : Tag) (name : String) : Option Text :=
  (t.attributes.find? fun a => a.1 == name.toList).map (·.2)

/-- The value of an attribute, empty if there is none. -/
def value (t : Tag) (name : String) : Text :=
  (t.value? name).getD []

/-- Whether an element has an attribute. -/
def has (t : Tag) (name : String) : Bool :=
  (t.value? name).isSome

/-- The classes of an element. -/
def classes (t : Tag) : List Text :=
  (((t.value "class").map fun c => if Text.isBlank c then ' ' else c).splitOn ' ').filter
    (!List.isEmpty ·)

/-- Whether an element has a class. -/
def hasClass (t : Tag) (name : String) : Bool :=
  t.classes.contains name.toList

/-- Whether an element has a name. -/
def isNamed (t : Tag) (name : String) : Bool :=
  t.name == name.toList

/-- Whether an element has one of some names. -/
def isOneOf (t : Tag) (names : List String) : Bool :=
  names.any fun n => t.isNamed n

end Tag

/-- The elements whose text is of a kind of its own. -/
def textKinds : List (String × TextKind) :=
  [("style", .style), ("script", .script), ("template", .template), ("rt", .rubyText),
    ("rp", .rubyParenthesis)]

/-- The kind of text that belongs to an element, if it is a kind of its own. -/
def Tag.textKind? (t : Tag) : Option TextKind :=
  (textKinds.find? fun k => t.isNamed k.1).map (·.2)

/-- Whether a run of text belongs to the text of an element. -/
def Tag.shows (t : Tag) (kind : TextKind) : Bool :=
  match t.textKind? with
  | some own => kind = own
  | none => kind = .plain || kind = .literal

namespace Node

mutual

/-- The runs of text in a node whose kind satisfies `p`, put together. -/
def textWhere (p : TextKind → Bool) : Node → Text
  | .text kind content => if p kind then content else []
  | .element _ children => textsWhere p children

/-- The runs of text in some nodes whose kind satisfies `p`, put together. -/
def textsWhere (p : TextKind → Bool) : List Node → Text
  | [] => []
  | n :: r => textWhere p n ++ textsWhere p r

end

mutual

/-- The first element in a node, itself included, that satisfies `p`. -/
def find? (p : Tag → Bool) : Node → Option (Tag × List Node)
  | .text _ _ => none
  | .element tag children => if p tag then some (tag, children) else findAmong? p children

/-- The first element in some nodes that satisfies `p`, in document order. -/
def findAmong? (p : Tag → Bool) : List Node → Option (Tag × List Node)
  | [] => none
  | n :: r => (find? p n).or (findAmong? p r)

end

mutual

/-- The elements in a node that satisfy `p`, itself included, in document order. Nothing inside an
element that satisfies `stop` is looked at, nor that element. -/
def select (p stop : Tag → Bool) : Node → List (Tag × List Node)
  | .text _ _ => []
  | .element tag children =>
    if stop tag then []
    else
      let inner := selectAmong p stop children
      if p tag then (tag, children) :: inner else inner

/-- The elements in some nodes that satisfy `p`, in document order. -/
def selectAmong (p stop : Tag → Bool) : List Node → List (Tag × List Node)
  | [] => []
  | n :: r => select p stop n ++ selectAmong p stop r

end

/-- The elements among some nodes that satisfy `p`. -/
def elements (p : Tag → Bool) (nodes : List Node) : List (Tag × List Node) :=
  nodes.filterMap fun
    | .element tag children => if p tag then some (tag, children) else none
    | .text _ _ => none

end Node

/-- The text of an element. -/
def Tag.innerText (t : Tag) (children : List Node) : Text :=
  Node.textsWhere t.shows children

end Markdown.Html
