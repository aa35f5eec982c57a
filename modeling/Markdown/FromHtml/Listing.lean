import Markdown.FromHtml.Inline
import Markdown.Text.Letters

/-!
# Lists of HTML

One line for each entry, with a dash or a number before it; lists inside an entry follow it, two
spaces to the right. A checkbox in an entry becomes a box before its text.
-/

namespace Markdown.FromHtml

open Html (Node Tag)

/-- The greatest number of digits of a list number. -/
def maxListDigits : Nat := 4300

/-- The number at which an ordered list starts: the one it names, if it is written with decimal
digits only, else 1. -/
def startNumber (tag : Tag) : Report Nat :=
  let digits := Text.trim ((tag.value? "start").getD ['1'])
  if digits.isEmpty || !digits.all Text.isDigit then pure 1
  else do
    if maxListDigits < digits.length then Report.fail (.longNumeral digits.length)
    pure (Text.digitsValue digits)

/-- The number of the first entry of a list. Only ordered lists have one. -/
def firstNumber (tag : Tag) : Report Nat :=
  if tag.isNamed "ol" then startNumber tag else pure 0

/-- What stands before the text of an entry. -/
def itemMark (ordered : Bool) (number : Nat) : Report Text :=
  if ordered then do
    let numeral := Text.ofNat number
    if maxListDigits < numeral.length then Report.fail .longCounter
    pure (numeral ++ ['.', ' '])
  else pure ['-', ' ']

/-- Whether an element is a list. -/
def isList (tag : Tag) : Bool :=
  tag.isOneOf ["ul", "ol"]

/-- Whether an element is a checkbox. -/
def isCheckbox (tag : Tag) : Bool :=
  tag.isNamed "input" && tag.value? "type" = some "checkbox".toList

/-- Whether a node belongs to the text of an entry. -/
def belongsToText : Node → Bool
  | .text _ _ => true
  | .element tag _ => !isList tag && !isCheckbox tag

/-- The box before the text of an entry: that of its last checkbox. -/
def itemBox (children : List Node) : Text :=
  match (Node.elements isCheckbox children).getLast? with
  | none => []
  | some (tag, _) => if tag.has "checked" then "[x] ".toList else "[ ] ".toList

/-- The line of an entry, without the lists inside it. -/
def itemLine (hook : Option Hook) (mark : Text) (children : List Node) : Report Text := do
  let t ← inlineNodes hook (children.filter belongsToText)
  pure (mark ++ itemBox children ++ Text.trim t)

/-- The lines of a text that are not empty, two spaces to the right. -/
def indentLines (t : Text) : List Text :=
  ((Text.lines t).filter (!List.isEmpty ·)).map fun line => ' ' :: ' ' :: line

/-- The lines of a list, with a blank line behind them. -/
def closeLines (lines : List Text) : Text :=
  Text.unlines lines ++ ['\n', '\n']

/-- Whether a node is an entry of a list. -/
def isEntry : Node → Bool
  | .text _ _ => false
  | .element tag _ => tag.isNamed "li"

mutual

/-- The lines of a node that is an entry with a number; other nodes of a list have none. -/
def entryLines (hook : Option Hook) (ordered : Bool) (number : Nat) : Node → Report (List Text)
  | .text _ _ => pure []
  | .element tag children =>
    if tag.isNamed "li" then do
      let mark ← itemMark ordered number
      let line ← itemLine hook mark children
      let nested ← nestedLines hook children
      pure (line :: nested)
    else pure []

/-- The lines of the entries among some nodes, numbered from `number`. -/
def listLines (hook : Option Hook) (ordered : Bool) (number : Nat) :
    List Node → Report (List Text)
  | [] => pure []
  | n :: r => do
    let first ← entryLines hook ordered number n
    let more ← listLines hook ordered (if isEntry n then number + 1 else number) r
    pure (first ++ more)

/-- The lines of a node that is a list, two spaces to the right; other nodes have none. -/
def innerLines (hook : Option Hook) : Node → Report (List Text)
  | .text _ _ => pure []
  | .element tag children =>
    if isList tag then do
      let start ← firstNumber tag
      let lines ← listLines hook (tag.isNamed "ol") start children
      pure (indentLines (closeLines lines))
    else pure []

/-- The lines of the lists among some nodes, two spaces to the right. -/
def nestedLines (hook : Option Hook) : List Node → Report (List Text)
  | [] => pure []
  | n :: r => do
    let first ← innerLines hook n
    let more ← nestedLines hook r
    pure (first ++ more)

end

/-- The Markdown of a list. -/
def listing (hook : Option Hook) (tag : Tag) (children : List Node) : Report Text := do
  let start ← firstNumber tag
  closeLines <$> listLines hook (tag.isNamed "ol") start children

end Markdown.FromHtml
