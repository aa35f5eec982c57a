import Markdown.Yaml.Fault

/-!
# Reading positions in YAML

The characters that YAML tells apart, and the position of its scanner: what is left of the text,
and the index, line and column of the next character. The end of the text counts as a line end.
-/

namespace Markdown.Yaml

/-- Why a text is not accepted. -/
inductive Failure where
  /-- It is not YAML. -/
  | malformed
  /-- Its reading is broken off by a fault. -/
  | broken (fault : Fault)
  deriving DecidableEq, Repr

/-- A character that starts a new line. -/
def isBreak (c : Char) : Bool :=
  let n := c.toNat
  n == 0xa || n == 0xd || n == 0x85 || n == 0x2028 || n == 0x2029

/-- A space, a tab or a line break. -/
def isSpacing (c : Char) : Bool :=
  c == ' ' || c == '\t' || isBreak c

/-- A character that may occur in YAML. -/
def isPrintable (c : Char) : Bool :=
  let n := c.toNat
  n == 9 || n == 0xa || n == 0xd || (0x20 ≤ n && n ≤ 0x7e) || n == 0x85 ||
    (0xa0 ≤ n && n ≤ 0xd7ff) || (0xe000 ≤ n && n ≤ 0xfffd) || 0x10000 ≤ n

/-- The mark of byte order, which takes no column. -/
def byteOrderMark : Char := Char.ofNat 0xfeff

/-- A position in a text. -/
structure Cursor where
  /-- What is left. -/
  rest : Text
  /-- How many characters have been read. -/
  index : Nat
  /-- How many lines have been left. -/
  line : Nat
  /-- How many characters of the line have been read. -/
  column : Nat

namespace Cursor

/-- The position at the start of a text. -/
def atStart (t : Text) : Cursor :=
  ⟨t, 0, 0, 0⟩

/-- The next character. -/
def peek (p : Cursor) : Option Char :=
  p.rest.head?

/-- Whether the next character is `c`. -/
def sees (p : Cursor) (c : Char) : Bool :=
  p.peek == some c

/-- Whether the text behind the next `k` characters starts with spacing or is at its end. -/
def spacingAt (p : Cursor) (k : Nat) : Bool :=
  match p.rest.drop k with
  | [] => true
  | c :: _ => isSpacing c

/-- Whether the line ends here. -/
def atLineEnd (p : Cursor) : Bool :=
  match p.rest with
  | [] => true
  | c :: _ => isBreak c

/-- Whether a word ends here: at a space, a line end or the end of the text. -/
def atWordEnd (p : Cursor) : Bool :=
  p.sees ' ' || p.atLineEnd

/-- The position behind the next character. -/
def next (p : Cursor) : Cursor :=
  match p.rest with
  | [] => p
  | c :: r =>
    if isBreak c && !(c == '\r' && r.head? == some '\n') then ⟨r, p.index + 1, p.line + 1, 0⟩
    else ⟨r, p.index + 1, p.line, if c == byteOrderMark then p.column else p.column + 1⟩

/-- The position behind the next `n` characters. -/
def advance (p : Cursor) : Nat → Cursor
  | 0 => p
  | n + 1 => p.next.advance n

/-- The position behind the characters that satisfy `f`, and these characters. -/
def span (p : Cursor) (f : Char → Bool) : Text × Cursor :=
  let t := p.rest.takeWhile f
  (t, p.advance t.length)

/-- The position behind the spaces here. -/
def skipSpaces (p : Cursor) : Cursor :=
  (p.span (· == ' ')).2

/-- The position behind a comment, if one starts here. -/
def skipComment (p : Cursor) : Cursor :=
  if p.sees '#' then (p.span fun c => !isBreak c).2 else p

/-- The line break here, in its normal form, and the position behind it. -/
def lineBreak? (p : Cursor) : Option (Char × Cursor) :=
  match p.rest with
  | '\r' :: '\n' :: _ => some ('\n', p.advance 2)
  | c :: _ =>
    if c.toNat == 0x2028 || c.toNat == 0x2029 then some (c, p.next)
    else if isBreak c then some ('\n', p.next)
    else none
  | [] => none

/-- The position behind a line break, if one stands here. -/
def skipBreak (p : Cursor) : Cursor :=
  match p.lineBreak? with
  | some (_, p) => p
  | none => p

/-- Whether three equal characters `c` with spacing behind them stand here. -/
def seesTriple (p : Cursor) (c : Char) : Bool :=
  (p.rest.take 3 == [c, c, c]) && p.spacingAt 3

/-- Whether a document ends or starts here. -/
def seesSeparator (p : Cursor) : Bool :=
  p.seesTriple '-' || p.seesTriple '.'

end Cursor

end Markdown.Yaml
