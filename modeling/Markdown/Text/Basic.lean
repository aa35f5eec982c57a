/-!
# Text

A text is a list of Unicode code points. This module holds the operations on texts that need
no table: blank characters and trimming, lines, replacement of a fixed character by a text,
and decimal numerals.
-/

namespace Markdown

/-- A text, one element per code point. -/
abbrev Text := List Char

namespace Text

/-! ### Blank characters -/

/-- White space in the sense of Unicode, with the four ASCII information separators. -/
def isBlank (c : Char) : Bool :=
  let n := c.toNat
  (9 ≤ n && n ≤ 13) || (0x1c ≤ n && n ≤ 0x20) || n == 0x85 || n == 0xa0 || n == 0x1680 ||
    (0x2000 ≤ n && n ≤ 0x200a) || n == 0x2028 || n == 0x2029 || n == 0x202f || n == 0x205f ||
    n == 0x3000

/-- The text without the characters at its start that satisfy `p`. -/
def trimStartBy (p : Char → Bool) (t : Text) : Text :=
  t.dropWhile p

/-- The text without the characters at its end that satisfy `p`. -/
def trimEndBy (p : Char → Bool) (t : Text) : Text :=
  (t.reverse.dropWhile p).reverse

/-- The text without blank characters at its start. -/
def trimStart (t : Text) : Text :=
  trimStartBy isBlank t

/-- The text without blank characters at its end. -/
def trimEnd (t : Text) : Text :=
  trimEndBy isBlank t

/-- The text without blank characters at either end. -/
def trim (t : Text) : Text :=
  trimEnd (trimStart t)

/-- A text of blank characters only, the empty text included. -/
def allBlank (t : Text) : Bool :=
  t.all isBlank

/-! ### Lines -/

/-- The lines of a text; a text without line feed has one line. -/
def lines (t : Text) : List Text :=
  t.splitOn '\n'

/-- The text whose lines are given, with a line feed between each two. -/
def unlines (ls : List Text) : Text :=
  ['\n'].intercalate ls

/-- Carriage returns, alone or before a line feed, become line feeds. -/
def normalizeNewlines : Text → Text
  | [] => []
  | '\r' :: '\n' :: r => '\n' :: normalizeNewlines r
  | '\r' :: r => '\n' :: normalizeNewlines r
  | c :: r => c :: normalizeNewlines r

/-! ### Searching and replacing -/

/-- Whether `t` begins with `s`. -/
def startsWith (t s : Text) : Bool :=
  s.isPrefixOf t

/-- Whether `t` ends with `s`. -/
def endsWith (t s : Text) : Bool :=
  s.isSuffixOf t

/-- What follows `s` at the start of a text. -/
def after? (s t : Text) : Option Text :=
  s.isPrefixOf? t

/-- Whether `s` occurs somewhere in `t`. -/
def occurs (s : Text) : Text → Bool
  | [] => s.isEmpty
  | c :: r => s.isPrefixOf (c :: r) || occurs s r

/-- The text before the first occurrence of `s` and the text behind it. -/
def cut? (s : Text) : Text → Option (Text × Text)
  | [] => if s.isEmpty then some ([], []) else none
  | c :: r =>
    match after? s (c :: r) with
    | some rest => some ([], rest)
    | none => (cut? s r).map fun p => (c :: p.1, p.2)

/-- The text behind the first occurrence of the character `c`, and the text before it. -/
def cutAt? (c : Char) (t : Text) : Option (Text × Text) :=
  match t.dropWhile (· ≠ c) with
  | [] => none
  | _ :: rest => some (t.takeWhile (· ≠ c), rest)

/-! ### Numerals -/

/-- The decimal numeral of a natural number. -/
def ofNat (n : Nat) : Text :=
  Nat.toDigits 10 n

/-- The decimal numeral of an integer. -/
def ofInt : Int → Text
  | .ofNat n => ofNat n
  | .negSucc n => '-' :: ofNat (n + 1)

end Text

end Markdown
