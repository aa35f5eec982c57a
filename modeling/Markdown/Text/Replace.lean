import Markdown.Text.Segment

/-!
# Replacing parts of a text from left to right

A rule looks at a place of a text and may replace a part of it that starts there. `Text.replaceBy`
applies a rule at every place from left to right; what has been replaced is not looked at again.
`Text.pieces` tells which parts were replaced by what.
-/

namespace Markdown.Text

/-- A replacement: how many characters behind the first it takes, and what stands for them. -/
structure Hit where
  /-- The number of characters behind the first. -/
  extra : Nat
  /-- The replacement. -/
  text : Text
  deriving DecidableEq, Repr

/-- A rule of replacement: given the character before a place, the character at it and what
follows, it may answer what stands there instead. -/
abbrev Rule := Option Char → Char → Text → Option Hit

/-- One step of a replacement; the state is the character before the place. -/
def replaceStep (rule : Rule) (before : Option Char) (c : Char) (r : Text) :
    Cut (Option Char) (Option Text) :=
  match rule before c r with
  | none => ⟨0, none, some c⟩
  | some hit => ⟨hit.extra, some hit.text, (c :: r.take hit.extra).getLast?⟩

/-- The parts of a text, each with its replacement if a rule applies to it. -/
def pieces (rule : Rule) (t : Text) : List (Segment (Option Text)) :=
  segment (replaceStep rule) none t

/-- The text with all replacements of a rule. -/
def replaceBy (rule : Rule) (t : Text) : Text :=
  (pieces rule t).flatMap fun p => p.label.getD p.text

/-- A rule that replaces a fixed text. -/
def Rule.fixed (s : Text) (replacement : Text) : Rule := fun _ c r =>
  if s.isPrefixOf (c :: r) then some ⟨s.length - 1, replacement⟩ else none

/-- The length of the shortest text that is not empty, has only characters that satisfy `p`, and
has something behind it that satisfies `closes`. -/
def shortest? (p : Char → Bool) (closes : Text → Bool) : Text → Option Nat
  | [] => none
  | c :: r =>
    if p c then if closes r then some 1 else (shortest? p closes r).map (· + 1) else none

end Markdown.Text
