import Markdown.Html.Entity
import Markdown.Html.Part
import Markdown.Report
import Markdown.Text.Letters

/-!
# Character references

`Html.unescape` replaces the character references of a text by their characters, the way
attribute values are read: a named reference counts without a semicolon if its name is an old one,
and then the longest name counts that the text begins with.
-/

namespace Markdown.Html

/-- The greatest number of digits of a decimal reference. -/
def maxReferenceDigits : Nat := 4300

/-- The text that a numeric reference stands for. -/
def numberValue (n : Nat) : Text :=
  let own := if (0xd800 ≤ n && n ≤ 0xdfff) || 0x10ffff < n then [Char.ofNat 0xfffd]
    else if droppedNumbers.any fun r => r.1 ≤ n && n ≤ r.2 then []
    else [Char.ofNat n]
  (replacedNumbers.find? fun r => r.1 == n).elim own fun r => [Char.ofNat r.2]

/-- A character of a named reference. -/
def isNameChar (c : Char) : Bool :=
  !(c == '\t' || c == '\n' || c == '\x0c' || c == ' ' || c == '<' || c == '&' || c == '#' ||
    c == ';')

/-- The text that a named reference stands for, with what is left of the name: the name with its
semicolon, or the longest old name at its start. -/
def namedValue (name : Text) (closed : Bool) : Text :=
  let whole := match entity? name with
    | some e => if closed || e.bare then some e.value else none
    | none => none
  match whole with
  | some v => v
  | none =>
    let full := if closed then name ++ [';'] else name
    let cut := ((List.range (full.length - 2)).map fun k => full.length - 1 - k).findSome? fun n =>
      match entity? (full.take n) with
      | some e => if e.bare then some (e.value ++ full.drop n) else none
      | none => none
    cut.getD ('&' :: full)

/-- A reference behind an ampersand: how many characters it has, and what it stands for. -/
inductive Reference where
  /-- A number. -/
  | number (size : Nat) (digits : Text) (hexadecimal : Bool)
  /-- A name, perhaps with a semicolon. -/
  | name (size : Nat) (name : Text) (closed : Bool)

/-- Whether a semicolon stands at the start of a text. -/
def semicolon (t : Text) : Bool :=
  t.head? == some ';'

/-- The reference behind an ampersand. -/
def reference? (r : Text) : Option Reference :=
  match r with
  | '#' :: x :: rest =>
    if x == 'x' || x == 'X' then
      let ds := rest.takeWhile Text.isHexDigit
      if ds.isEmpty then none
      else
        let closed := semicolon (rest.drop ds.length)
        some (.number (2 + ds.length + if closed then 1 else 0) ds true)
    else
      let ds := (x :: rest).takeWhile Text.isAsciiDigit
      if ds.isEmpty then none
      else
        let closed := semicolon ((x :: rest).drop ds.length)
        some (.number (1 + ds.length + if closed then 1 else 0) ds false)
  | _ =>
    let name := (r.take 32).takeWhile isNameChar
    if name.isEmpty then none
    else
      let closed := semicolon (r.drop name.length)
      some (.name (name.length + if closed then 1 else 0) name closed)

/-- The references of a text and the characters between them. -/
def referenceStep (_ : Unit) (c : Char) (r : Text) : Text.Cut Unit (Option Reference) :=
  if c = '&' then
    match reference? r with
    | some (.number size ds x) => ⟨size, some (.number size ds x), ()⟩
    | some (.name size name closed) => ⟨size, some (.name size name closed), ()⟩
    | none => ⟨0, none, ()⟩
  else ⟨0, none, ()⟩

/-- What a segment stands for. -/
def referenceValue (p : Text.Segment (Option Reference)) : Report Text :=
  match p.label with
  | none => pure p.text
  | some (.name _ name closed) => pure (namedValue name closed)
  | some (.number _ ds true) => pure (numberValue (Text.hexValue ds))
  | some (.number _ ds false) => do
    if maxReferenceDigits < ds.length then Report.fail (.longNumeral ds.length)
    pure (numberValue (Text.digitsValue ds))

/-- The text with its character references replaced. -/
def unescape (t : Text) : Report Text := do
  let ps ← (Text.segment referenceStep () t).mapM referenceValue
  pure ps.flatten

/-- The text of some HTML without its tags and with its references replaced. -/
def visibleText (t : Text) : Report Text :=
  unescape ((parts t).flatMap fun p => if p.label = .text then p.text else [])

end Markdown.Html
