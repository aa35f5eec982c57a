import Markdown.Text.Basic

/-!
# Tables of code points

The character tables of the library are written as strings of hexadecimal numbers, read here
into lists of ranges.
-/

namespace Markdown.Text

/-- The value of a hexadecimal digit. -/
def hexDigit? (c : Char) : Option Nat :=
  if '0' ≤ c && c ≤ '9' then some (c.toNat - '0'.toNat)
  else if 'a' ≤ c && c ≤ 'f' then some (c.toNat - 'a'.toNat + 10)
  else if 'A' ≤ c && c ≤ 'F' then some (c.toNat - 'A'.toNat + 10)
  else none

/-- An ASCII hexadecimal digit. -/
def isHexDigit (c : Char) : Bool :=
  (hexDigit? c).isSome

/-- The number that a run of hexadecimal digits writes; other characters count as zero. -/
def hexValue (t : Text) : Nat :=
  t.foldl (fun n c => 16 * n + (hexDigit? c).getD 0) 0

/-- The hexadecimal numbers of a table, separated by blanks. -/
def readNumbers (s : String) : List Nat :=
  ((s.toList.map fun c => if isBlank c then ' ' else c).splitOn ' ').filterMap fun w =>
    if w.isEmpty then none else some (hexValue w)

/-- Consecutive numbers taken two by two. -/
def inPairs : List Nat → List (Nat × Nat)
  | a :: b :: r => (a, b) :: inPairs r
  | _ => []

/-- A table of ranges: the first and the last code point of each. -/
def readRanges (s : String) : List (Nat × Nat) :=
  inPairs (readNumbers s)

/-- Whether a character lies in one of the ranges. -/
def inRanges (ranges : List (Nat × Nat)) (c : Char) : Bool :=
  ranges.any fun r => r.1 ≤ c.toNat && c.toNat ≤ r.2

end Markdown.Text
