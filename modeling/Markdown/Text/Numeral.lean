import Markdown.Text.Letters
import Markdown.Text.Ranges

/-!
# Reading numerals

Whole numbers to the bases 2, 8, 10 and 16 and decimal fractions, with blanks around them, a sign,
and digits of any script. Only whether a text is such a numeral is answered.
-/

namespace Markdown.Text

/-- Why a text is no whole number. -/
inductive IntegerFault where
  /-- It is not written as one. -/
  | shape
  /-- It has too many decimal digits. -/
  | length
  deriving DecidableEq, Repr

/-- A blank that may stand around a numeral: the four separators of ASCII may not. -/
def isNumeralBlank (c : Char) : Bool :=
  isBlank c && !(0x1c ≤ c.toNat && c.toNat ≤ 0x1f)

/-- The text without the blanks around a numeral. -/
def trimNumeral (t : Text) : Text :=
  trimEndBy isNumeralBlank (trimStartBy isNumeralBlank t)

/-- The text with decimal digits of all scripts written in ASCII. -/
def asciiDigits (t : Text) : Text :=
  t.map fun c =>
    match digitValue? c with
    | some d => Char.ofNat ('0'.toNat + d)
    | none => c

/-- The text without a sign at its start. -/
def dropSign : Text → Text
  | '+' :: r => r
  | '-' :: r => r
  | t => t

/-- The value of a digit to a base of at most 16. -/
def digitBelow (base : Nat) (c : Char) : Bool :=
  match hexDigit? c with
  | some d => d < base
  | none => false

/-- The letters that may mark a base behind a zero. -/
def baseMark (base : Nat) (c : Char) : Bool :=
  (base == 16 && (c == 'x' || c == 'X')) || (base == 8 && (c == 'o' || c == 'O')) ||
    (base == 2 && (c == 'b' || c == 'B'))

/-- Whether a text without underscores writes a whole number to a base. -/
def integerFault? (base : Nat) (t : Text) : Option IntegerFault :=
  let t := dropSign (asciiDigits (trimNumeral t))
  let digits := match t with
    | '0' :: c :: r => if baseMark base c then r else t
    | _ => t
  if digits.isEmpty || !digits.all (digitBelow base) then some .shape
  else if base == 10 && 4300 < digits.length then some .length
  else none

/-- Nothing, or an exponent with an optional sign. -/
def isExponent (t : Text) : Bool :=
  match t with
  | [] => true
  | e :: r =>
    let ds := dropSign r
    (e == 'e' || e == 'E') && !ds.isEmpty && ds.all isAsciiDigit

/-- Whether a text without underscores writes a decimal number, an infinity or no number. -/
def isDecimal (t : Text) : Bool :=
  let t := dropSign (asciiDigits (trimNumeral t))
  let word := t.map fun c => if 'A' ≤ c && c ≤ 'Z' then Char.ofNat (c.toNat + 32) else c
  if word == "inf".toList || word == "infinity".toList || word == "nan".toList then true
  else
    let whole := t.takeWhile isAsciiDigit
    match t.drop whole.length with
    | '.' :: r =>
      let fraction := r.takeWhile isAsciiDigit
      !(whole.isEmpty && fraction.isEmpty) && isExponent (r.drop fraction.length)
    | r => !whole.isEmpty && isExponent r

end Markdown.Text
