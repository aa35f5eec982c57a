import Markdown.Block.Basic
import Markdown.Block.Line
import Markdown.Json.Token

/-!
# Lists

Nesting is by indentation: a marker at least two columns deeper than the markers of the current
list opens a list inside the latest entry. Lines without marker that are as deep continue the
latest entry. Blank lines end a list unless an entry of the same list follows them.
-/

namespace Markdown.Listing

/-- How much deeper than its parent a nested list stands at least. -/
def nesting : Nat := 2

/-- The entry that a marker opens. Only bullets have boxes. -/
def item (m : Line.Marker) : Item :=
  let content := Text.trim m.content
  if m.ordered then .mk content none []
  else
    match Line.taskBox? content with
    | some (ticked, text) => .mk text (some ticked) []
    | none => .mk content none []

/-- The number that a marker gives to its list. -/
def start (m : Line.Marker) : Report Int :=
  match m.digits with
  | none => pure 1
  | some ds => do
    if Json.maxDigits < ds.length then Report.fail (.longNumeral ds.length)
    pure (Text.digitsValue ds)

/-- The list that a marker opens, with its entries. -/
def list (m : Line.Marker) (first : Int) (items : List Item) : Block :=
  .list m.ordered first items

/-- How many blank lines stand at the start of some lines, if an entry of the same list follows
them. -/
def resumesAfter? (base : Nat) (ordered : Bool) (lines : List Text) : Option Nat :=
  let blanks := (lines.takeWhile Text.allBlank).length
  match lines.drop blanks with
  | [] => none
  | line :: _ =>
    match Line.marker? line with
    | none => none
    | some m =>
      if base ≤ Line.indent line && Line.indent line < base + nesting && m.ordered == ordered then
        some blanks
      else none

/-- The entries of a list, and how many lines they take. -/
structure Entries where
  /-- The entries. -/
  items : List Item
  /-- The number of lines. -/
  taken : Nat

/-- More lines in front of those already counted. -/
def Entries.behind (e : Entries) (n : Nat) : Entries :=
  ⟨e.items, e.taken + n⟩

/-- Changes the latest of some entries, which are in reverse order. -/
def onLatest (f : Item → Item) : List Item → List Item
  | [] => []
  | i :: r => f i :: r

/-- The entries of a list whose markers stand at column `base`, behind those already `done`,
the latest first. -/
def collect (base : Nat) (ordered : Bool) (done : List Item) : List Text → Report Entries
  | [] => pure ⟨done.reverse, 0⟩
  | line :: rest =>
    let stop : Report Entries := pure ⟨done.reverse, 0⟩
    if Text.allBlank line then
      match resumesAfter? base ordered rest with
      | none => stop
      | some blanks => do
        let more ← collect base ordered done (rest.drop blanks)
        pure (more.behind (blanks + 1))
    else if Line.indent line < base then stop
    else
      let nested := !done.isEmpty && base + nesting ≤ Line.indent line
      match Line.marker? line with
      | some m =>
        if nested then do
          let first ← start m
          let inner ← collect (Line.indent line) m.ordered [item m] rest
          let child := list m first inner.items
          let more ← collect base ordered (onLatest (Item.addChild child) done)
            (rest.drop inner.taken)
          pure (more.behind (inner.taken + 1))
        else if m.ordered == ordered then do
          let more ← collect base ordered (item m :: done) rest
          pure (more.behind 1)
        else stop
      | none =>
        if nested then do
          let more ← collect base ordered (onLatest (Item.addLine (Text.trim line)) done) rest
          pure (more.behind 1)
        else stop
termination_by lines => lines.length
decreasing_by all_goals simp only [List.length_cons, List.length_drop]; omega

/-- A list whose first marker is not left of the column `base`, if one is given. -/
def recogniseFrom (base : Option Nat) : Recogniser := fun _ line rest =>
  match Line.marker? line with
  | none => none
  | some m =>
    let column := base.getD (Line.indent line)
    if Line.indent line < column then none
    else
      let found : Report Block × Nat :=
        let first := start m
        let entries := collect column m.ordered [item m] rest
        (⟨list m first.value entries.value.items, first.notes ++ entries.notes⟩,
          entries.value.taken)
      some ⟨found.1.value, found.2, found.1.notes⟩

/-- A list. -/
def recognise : Recogniser :=
  recogniseFrom none

end Markdown.Listing
