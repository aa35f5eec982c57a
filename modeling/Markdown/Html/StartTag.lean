import Markdown.Text.Letters
import Markdown.Text.Lowercase

/-!
# Start tags

How a start tag is read. Almost everything between the angle brackets is accepted: a name reaches
to the next blank, slash or bracket, an attribute may stand behind any blank, slash or quote, and a
value may lack its quotes. A quote without its partner belongs to a bare value or to a name.
-/

namespace Markdown.Html

/-- A start tag as it is written. -/
structure StartTag where
  /-- The name, in lower case. -/
  name : Text
  /-- The attributes, with their values as written; a missing value is empty. -/
  attributes : List (Text × Text)
  /-- Whether a slash stands before the closing bracket. -/
  closed : Bool
  deriving DecidableEq, Repr

/-- What stands behind an opening bracket and a letter. -/
inductive StartTag.Reading where
  /-- A start tag of some length. -/
  | complete (length : Nat) (tag : StartTag)
  /-- Characters that only look like the beginning of one. -/
  | broken (length : Nat)
  /-- A start tag whose end is missing. -/
  | unfinished
  deriving DecidableEq, Repr

namespace StartTag

/-- Whether a character ends the name of an element. -/
def endsName (c : Char) : Bool :=
  c = '\t' || c = '\n' || c = '\r' || c = '\x0c' || c = ' ' || c = '/' || c = '>' || c = '\x00'

/-- The length of the gap at the start of a text: blanks, and slashes that do not close a tag. -/
def gapLength : Text → Nat
  | [] => 0
  | c :: r =>
    if Text.isBlank c || (c = '/' && r.head? ≠ some '>') then gapLength r + 1 else 0

/-- Whether an attribute may stand behind a character. -/
def opensAttribute (c : Char) : Bool :=
  Text.isBlank c || c = '/' || c = '"' || c = '\''

/-- Whether the name of an attribute may start with a character. -/
def startsAttribute (c : Char) : Bool :=
  !(Text.isBlank c || c = '/' || c = '>')

/-- A character inside the name of an attribute. -/
def isAttributeChar (c : Char) : Bool :=
  startsAttribute c && c ≠ '='

/-- A character of a value without quotes. -/
def isBareChar (c : Char) : Bool :=
  !(Text.isBlank c || c = '>')

/-- The text between two equal quotes at the start of a text. -/
def quotedValue? (t : Text) : Option Text :=
  match t with
  | q :: r => if q = '"' || q = '\'' then (Text.cutAt? q r).map (·.1) else none
  | [] => none

/-- A value behind the name of an attribute. -/
structure Value where
  /-- The value, without its quotes. -/
  text : Text
  /-- How many characters the value and its equals signs have. -/
  length : Nat
  deriving DecidableEq, Repr

/-- The value behind the name of an attribute, if there is one. A quote without its partner may
not start a value; then the value is what stands before it. -/
def value? (t : Text) : Option Value :=
  let before := (t.takeWhile Text.isBlank).length
  let signs := ((t.drop before).takeWhile (· = '=')).length
  let behind := ((t.drop (before + signs)).takeWhile Text.isBlank).length
  let start := before + signs + behind
  let bare (n : Nat) : Value :=
    let v := (t.drop n).takeWhile isBareChar
    ⟨v, n + v.length⟩
  if signs = 0 then none
  else
    match quotedValue? (t.drop start) with
    | some v => some ⟨v, start + v.length + 2⟩
    | none =>
      match t.drop start with
      | q :: _ =>
        if q = '"' || q = '\'' then
          if behind ≠ 0 then some ⟨[], start - 1⟩
          else if signs ≠ 1 then some (bare (start - 1))
          else none
        else some (bare start)
      | [] => some (bare start)

/-- An attribute with the gap behind it. -/
structure Attribute where
  /-- The name as written. -/
  name : Text
  /-- The value as written, empty if there is none. -/
  value : Text
  /-- How many characters behind the first of the name belong to the attribute and the gap. -/
  extra : Nat
  deriving DecidableEq, Repr

/-- The attribute that starts at a character. -/
def attributeAt (c : Char) (r : Text) : Attribute :=
  let name := r.takeWhile isAttributeChar
  let behind := r.drop name.length
  let value := (value? behind).getD ⟨[], 0⟩
  let gap := gapLength (behind.drop value.length)
  ⟨c :: name, value.text, name.length + value.length + gap⟩

/-- The attributes at the start of a text behind a character, and what follows them. -/
def attributesFrom (before : Char) : Text → List Attribute × Text
  | [] => ([], [])
  | c :: r =>
    if opensAttribute before && startsAttribute c then
      let a := attributeAt c r
      let more := attributesFrom ((c :: r.take a.extra).getLast?.getD c) (r.drop a.extra)
      (a :: more.1, more.2)
    else ([], c :: r)
termination_by t => t.length
decreasing_by simp only [List.length_cons, List.length_drop]; omega

/-- Reads the start tag at the start of a text, whose opening bracket has been read. -/
def read (t : Text) : Reading :=
  let name := t.takeWhile fun c => !endsName c
  let gap := gapLength (t.drop name.length)
  let head := t.take (name.length + gap)
  let (attributes, rest) := attributesFrom (head.getLast?.getD '<') (t.drop head.length)
  let length := t.length - rest.length
  let tag (closed : Bool) : StartTag :=
    ⟨Text.lower name, attributes.map fun a => (Text.lower a.name, a.value), closed⟩
  match rest with
  | '>' :: _ => .complete (length + 1) (tag false)
  | '/' :: '>' :: _ => .complete (length + 2) (tag true)
  | [] => .unfinished
  | c :: _ =>
    if c = '=' || c = '/' || Text.isAsciiLetter c then .unfinished else .broken length

end StartTag

end Markdown.Html
