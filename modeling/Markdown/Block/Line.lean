import Markdown.Text.Letters

/-!
# The shapes of single lines

What the recognisers look for in one line: indentation, thematic breaks, list markers, task
boxes and the hashes of a heading. A line may hold line feeds when a caller supplies the lines
itself; the content of a marker then ends at the last line feed only.
-/

namespace Markdown.Line

/-- The width of the indentation; a tab counts as two spaces. -/
def indent : Text → Nat
  | ' ' :: r => indent r + 1
  | '\t' :: r => indent r + 2
  | _ => 0

/-- Three or more equal marks `-`, `*` or `_`, and nothing else but blanks around them. -/
def isRule (line : Text) : Bool :=
  match Text.trim line with
  | c :: r => (c == '-' || c == '*' || c == '_') && 2 ≤ r.length && r.all (· == c)
  | [] => false

/-- The text up to the end of the line; one line feed may follow and nothing else. -/
def body? (t : Text) : Option Text :=
  match t.dropWhile (· ≠ '\n') with
  | [] => some t
  | ['\n'] => some (t.takeWhile (· ≠ '\n'))
  | _ => none

/-- What follows a marker: at least one blank, then the content. -/
def spaced? (t : Text) : Option Text :=
  match t with
  | c :: r => if Text.isBlank c then body? (Text.trimStart r) else none
  | [] => none

/-- A list marker and what follows it. -/
structure Marker where
  /-- The digits of an ordered marker; a bullet has none. -/
  digits : Option Text
  /-- The content behind the marker. -/
  content : Text
  deriving DecidableEq, Repr

/-- Whether the marker has a number. -/
def Marker.ordered (m : Marker) : Bool :=
  m.digits.isSome

/-- The marker at the start of a line: a bullet `-`, `*` or `+`, or digits with a point or a
closing parenthesis; blanks must follow. -/
def marker? (line : Text) : Option Marker :=
  let t := Text.trimStart line
  let digits := t.takeWhile Text.isDigit
  if digits.isEmpty then
    match t with
    | c :: r =>
      if c == '-' || c == '*' || c == '+' then (spaced? r).map fun content => ⟨none, content⟩
      else none
    | [] => none
  else
    match t.drop digits.length with
    | c :: r =>
      if c == '.' || c == ')' then (spaced? r).map fun content => ⟨some digits, content⟩
      else none
    | [] => none

/-- The box at the start of an entry: whether it is ticked, and the text behind it. -/
def taskBox? (content : Text) : Option (Bool × Text) :=
  match content with
  | '[' :: c :: ']' :: r =>
    if c == ' ' || c == 'x' || c == 'X' then
      if r.isEmpty then some (c != ' ', []) else (spaced? r).map fun text => (c != ' ', text)
    else none
  | _ => none

/-- One to six hashes at the start of a line with a blank behind them: their number and what
follows. -/
def hashes? (line : Text) : Option (Nat × Text) :=
  let n := (line.takeWhile (· == '#')).length
  match line.drop n with
  | c :: r => if 1 ≤ n && n ≤ 6 && Text.isBlank c then some (n, c :: r) else none
  | [] => none

/-- Whether a code fence starts the line, blanks aside. -/
def isFence (line : Text) : Bool :=
  (Text.trimStart line).startsWith (List.replicate 3 (Char.ofNat 0x60))

end Markdown.Line
