import Markdown.Report

/-!
# Blocks

The block structure of a Markdown document. A `Match` is what a recogniser answers when a block
starts at a line: the block and how many of the following lines belong to it.
-/

namespace Markdown

/-- How a table column is aligned. -/
inductive Alignment where
  /-- To the left. -/
  | left
  /-- In the middle. -/
  | center
  /-- To the right. -/
  | right
  deriving DecidableEq, Repr

/-- The word for an alignment in style sheets. -/
def Alignment.name : Alignment → Text
  | .left => "left".toList
  | .center => "center".toList
  | .right => "right".toList

/-- A term with its definitions. -/
structure Definition where
  /-- What is defined. -/
  term : Text
  /-- The definitions, in order. -/
  meanings : List Text
  deriving DecidableEq, Repr

mutual

/-- A block of a document. -/
inductive Block where
  /-- A heading. Documents have the levels 1 to 6; blocks made by hand may have any. -/
  | heading (level : Int) (content : Text)
  /-- A run of text lines. -/
  | paragraph (content : Text)
  /-- Literal code; `detected` tells that it was recognised without a fence. -/
  | code (language content : Text) (detected : Bool)
  /-- A list; `start` counts for ordered lists only. -/
  | list (ordered : Bool) (start : Int) (items : List Item)
  /-- A pipe table. -/
  | table (headers : List Text) (alignments : List (Option Alignment)) (rows : List (List Text))
  /-- Quoted lines, with the blocks that they hold. -/
  | quote (content : Text) (children : List Block)
  /-- A thematic break. -/
  | rule
  /-- Terms with their definitions. -/
  | definitions (items : List Definition)
  /-- The definition of a footnote. Documents keep these apart; it shows nothing. -/
  | footnote (id content : Text)
  /-- A value that is no block. -/
  | foreign (value : Foreign)

/-- An entry of a list. -/
inductive Item where
  /-- The text of the entry, the state of its box if it has one, and the lists nested in it. -/
  | mk (content : Text) (checked : Option Bool) (children : List Block)

end

deriving instance Repr for Block, Item
deriving instance Inhabited for Block

namespace Item

/-- The text of an entry. -/
def content : Item → Text
  | .mk content _ _ => content

/-- The state of the box of an entry, if it has one. -/
def checked : Item → Option Bool
  | .mk _ checked _ => checked

/-- The lists nested in an entry. -/
def children : Item → List Block
  | .mk _ _ children => children

/-- The entry with one more line of text. -/
def addLine (line : Text) : Item → Item
  | .mk content checked children => .mk (content ++ '\n' :: line) checked children

/-- The entry with one more nested block. -/
def addChild (b : Block) : Item → Item
  | .mk content checked children => .mk content checked (children ++ [b])

end Item

/-- Whether a list has an entry with a box. -/
def isTaskList (items : List Item) : Bool :=
  items.any fun i => i.checked.isSome

/-- What a recogniser has found at a line. -/
structure Match where
  /-- The block. -/
  block : Block
  /-- How many lines behind the first belong to it. -/
  extra : Nat
  /-- What was noted while it was recognised. -/
  notes : List Note

/-- The block that was found, with what was noted. -/
def Match.report (m : Match) : Report Block :=
  ⟨m.block, m.notes⟩

/-- A recogniser: given the number of a line, the line, and the lines behind it, it answers
whether its kind of block starts there. -/
abbrev Recogniser := Nat → Text → List Text → Option Match

end Markdown
