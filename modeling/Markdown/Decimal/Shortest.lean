import Markdown.Decimal.Binary
import Markdown.Text.Basic

/-!
# Shortest decimals

The decimal text of a number of the 64-bit binary format: the fewest digits that round back to
the number, and among those the nearest. Numbers from `0.0001` up to `10 ^ 16` are written
positionally with at least one decimal, others with an exponent of at least two digits.
-/

namespace Markdown

namespace Binary64

/-- A decimal: the value is `0.digits * 10 ^ point`. -/
structure Decimal where
  /-- The significant digits. -/
  digits : Nat
  /-- The place of the decimal point, counted from the first digit. -/
  point : Int

/-- The reals that round to a number, as numerators over one denominator. -/
structure Interval where
  /-- The lower end. -/
  low : Nat
  /-- The number itself. -/
  value : Nat
  /-- The upper end. -/
  high : Nat
  /-- The common denominator. -/
  den : Nat
  /-- Whether the ends belong to the interval. -/
  closed : Bool

/-- The reals that round to `m * 2 ^ e`. Below a power of two the neighbours are closer. -/
def interval (m : Nat) (e : Int) : Interval :=
  let below := if m == Nat.pow 2 52 && minExponent < e then 1 else 2
  let s := scale 1 4 e
  ⟨(4 * m - below) * s.1, 4 * m * s.1, (4 * m + 2) * s.1, s.2, m % 2 == 0⟩

/-- Whether the interval contains `a / b`. -/
def Interval.has (i : Interval) (a b : Nat) : Bool :=
  if i.closed then i.low * b ≤ a * i.den && a * i.den ≤ i.high * b
  else i.low * b < a * i.den && a * i.den < i.high * b

/-- The place of the decimal point of `num / den`: the least `k` with `num / den < 10 ^ k`. -/
def pointOf (num den : Nat) : Int :=
  let up := (List.range 400).find? fun k => num < den * Nat.pow 10 k
  match up with
  | some 0 =>
    match (List.range 400).find? fun k => den ≤ num * Nat.pow 10 (k + 1) with
    | some k => -(k : Int)
    | none => 0
  | some k => k
  | none => 0

/-- The candidate with `count` digits: of the two neighbours of the number on the decimal grid,
the nearer one that lies in the interval, of two equally near the even one. -/
def onGrid? (i : Interval) (point : Int) (count : Nat) : Option Decimal :=
  let unit := point - count
  let (num, den) := if 0 ≤ unit then (Nat.pow 10 unit.toNat, 1) else (1, Nat.pow 10 (-unit).toNat)
  let d := i.value * den / (i.den * num)
  let inside (k : Nat) : Bool := i.has (k * num) den
  let twice := 2 * (i.value * den)
  let middle := (2 * d + 1) * (num * i.den)
  let nearerLow := twice < middle || (twice == middle && d % 2 == 0)
  if inside d && (nearerLow || !inside (d + 1)) then some ⟨d, point⟩
  else if inside (d + 1) then
    if d + 1 == Nat.pow 10 count then some ⟨Nat.pow 10 (count - 1), point + 1⟩ else some ⟨d + 1, point⟩
  else none

/-- The shortest decimal that rounds back to `m * 2 ^ e`, for `m` not zero. -/
def shortest (m : Nat) (e : Int) : Decimal :=
  let i := interval m e
  let point := pointOf i.value i.den
  ((List.range 17).findSome? fun k => onGrid? i point (k + 1)).getD ⟨0, 1⟩

/-- The digits of a decimal without zeros at their end. -/
def Decimal.significant (d : Decimal) : Text :=
  match Text.trimEndBy (· = '0') (Text.ofNat d.digits) with
  | [] => ['0']
  | t => t

/-- The written form of a decimal. -/
def Decimal.toText (d : Decimal) : Text :=
  let ds := d.significant
  let n := ds.length
  if d.point ≤ -4 || 16 < d.point then
    let exponent := d.point - 1
    let size := Text.ofNat exponent.natAbs
    let padded := if size.length < 2 then '0' :: size else size
    let sign := if exponent < 0 then '-' else '+'
    ds.take 1 ++ (if n == 1 then [] else '.' :: ds.drop 1) ++ 'e' :: sign :: padded
  else if d.point ≤ 0 then
    '0' :: '.' :: (List.replicate (-d.point).toNat '0' ++ ds)
  else if (n : Int) ≤ d.point then
    ds ++ List.replicate (d.point.toNat - n) '0' ++ ['.', '0']
  else
    ds.take d.point.toNat ++ '.' :: ds.drop d.point.toNat

/-- The written form of a number of the format. -/
def toText : Binary64 → Text
  | .nan => "NaN".toList
  | .infinite negative => if negative then "-Infinity".toList else "Infinity".toList
  | .finite negative m e =>
    let size := if m == 0 then "0.0".toList else (shortest m e).toText
    if negative then '-' :: size else size

end Binary64

end Markdown
