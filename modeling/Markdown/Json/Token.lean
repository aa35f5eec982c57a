import Markdown.Json.Basic
import Markdown.Text.Letters
import Markdown.Text.Segment

/-!
# Lexical grammar of JSON

`Json.lex` cuts a text into blanks, marks, strings, numbers and words. The grammar is that of the
interchange format with three more words, `NaN`, `Infinity` and `-Infinity`. Whole numbers have
at most 4300 digits.
-/

namespace Markdown.Json

/-- A token of JSON. -/
inductive Token where
  /-- One of `{ } [ ] , :`. -/
  | mark (c : Char)
  /-- A string with its decoded value. -/
  | string (value : Text)
  /-- A number or a word with its value. -/
  | scalar (value : Json)

/-- What a segment of a text is. -/
inductive Lexeme where
  /-- White space between tokens. -/
  | blank
  /-- A token. -/
  | token (t : Token)
  /-- No part of a JSON text. -/
  | junk

/-- Space, tab, line feed and carriage return. -/
def isBlank (c : Char) : Bool :=
  c == ' ' || c == '\t' || c == '\n' || c == '\r'

/-- The six marks of the grammar. -/
def isMark (c : Char) : Bool :=
  c == '{' || c == '}' || c == '[' || c == ']' || c == ',' || c == ':'

/-! ### Strings -/

/-- What stands behind an opening quote up to the next quote that no backslash precedes, in
reverse, with `seen` before it. -/
def closedBody? (seen : Text) : Text → Option Text
  | [] => none
  | '"' :: _ => some seen
  | '\\' :: c :: r => closedBody? (c :: '\\' :: seen) r
  | c :: r => closedBody? (c :: seen) r

/-- What stands between the quotes of a string whose opening quote has been read. -/
def stringBody? (t : Text) : Option Text :=
  (closedBody? [] t).map List.reverse

/-- The number written by four hexadecimal digits. -/
def hex4? (a b c d : Char) : Option Nat :=
  if [a, b, c, d].all Text.isHexDigit then some (Text.hexValue [a, b, c, d]) else none

/-- The character that a one-letter escape stands for. -/
def escaped? (c : Char) : Option Char :=
  match c with
  | '"' => some '"'
  | '\\' => some '\\'
  | '/' => some '/'
  | 'b' => some '\x08'
  | 'f' => some '\x0c'
  | 'n' => some '\n'
  | 'r' => some '\r'
  | 't' => some '\t'
  | _ => none

/-- The code units of a string body behind those already `done`, the latest first: escapes are
resolved, control characters are refused. -/
def unitsOnto (done : List Nat) : Text → Option (List Nat)
  | [] => some done.reverse
  | '\\' :: 'u' :: a :: b :: c :: d :: r =>
    match hex4? a b c d with
    | some n => unitsOnto (n :: done) r
    | none => none
  | '\\' :: c :: r =>
    match escaped? c with
    | some e => unitsOnto (e.toNat :: done) r
    | none => none
  | c :: r => if c.toNat < 0x20 || c == '\\' then none else unitsOnto (c.toNat :: done) r

/-- The text of code units, in reverse, behind `done`: two surrogates that belong together are
one character, and a single one is replaced. -/
def joinUnits (done : Text) : List Nat → Text
  | [] => done.reverse
  | [n] => (scalarOr n :: done).reverse
  | n :: m :: r =>
    if 0xd800 ≤ n && n < 0xdc00 && 0xdc00 ≤ m && m < 0xe000 then
      joinUnits (Char.ofNat (0x10000 + (n - 0xd800) * 0x400 + (m - 0xdc00)) :: done) r
    else joinUnits (scalarOr n :: done) (m :: r)
where
  /-- The character of a code unit; a surrogate has none and gives the replacement character. -/
  scalarOr (n : Nat) : Char :=
    if 0xd800 ≤ n && n < 0xe000 then Char.ofNat 0xfffd else Char.ofNat n

/-- The value of a string body. -/
def decode? (body : Text) : Option Text :=
  (unitsOnto [] body).map (joinUnits [])

/-! ### Numbers -/

/-- The parts of a numeral. -/
structure Numeral where
  /-- Whether it starts with a minus sign. -/
  negative : Bool
  /-- The digits before the point. -/
  whole : Text
  /-- The digits behind the point, if there is one. -/
  fraction : Option Text
  /-- The sign of the exponent (true: negative) with its digits, if there is one. -/
  exponent : Option (Bool × Text)
  /-- How many characters the numeral has. -/
  size : Nat

/-- The digits at the start of a text. -/
def leadingDigits (t : Text) : Text :=
  t.takeWhile Text.isAsciiDigit

/-- The fraction at the start of a text. -/
def fraction? : Text → Option Text
  | '.' :: r => if (leadingDigits r).isEmpty then none else some (leadingDigits r)
  | _ => none

/-- The exponent at the start of a text, with its size. -/
def exponent? : Text → Option ((Bool × Text) × Nat)
  | e :: r =>
    if e == 'e' || e == 'E' then
      let signed := match r with
        | '-' :: s => (true, 2, leadingDigits s)
        | '+' :: s => (false, 2, leadingDigits s)
        | s => (false, 1, leadingDigits s)
      if signed.2.2.isEmpty then none
      else some ((signed.1, signed.2.2), signed.2.1 + signed.2.2.length)
    else none
  | [] => none

/-- The numeral at the start of a text. -/
def numeral? (t : Text) : Option Numeral :=
  let negative := t.head? == some '-'
  let t := if negative then t.drop 1 else t
  let whole := if t.head? == some '0' then ['0'] else leadingDigits t
  if whole.isEmpty then none
  else
    let rest := t.drop whole.length
    let fraction := fraction? rest
    let fractionSize := match fraction with
      | some ds => ds.length + 1
      | none => 0
    let exponent := exponent? (rest.drop fractionSize)
    let exponentSize := match exponent with
      | some e => e.2
      | none => 0
    some ⟨negative, whole, fraction, exponent.map (·.1),
      (if negative then 1 else 0) + whole.length + fractionSize + exponentSize⟩

/-- The greatest number of digits of a whole number. -/
def maxDigits : Nat := 4300

/-- The value of a numeral; a whole number may have too many digits. -/
def Numeral.value? (n : Numeral) : Option Json :=
  match n.fraction, n.exponent with
  | none, none =>
    if maxDigits < n.whole.length then none
    else
      let v : Int := Text.digitsValue n.whole
      some (.integer (if n.negative then -v else v))
  | fraction, exponent =>
    let ds := fraction.getD []
    let e : Int := match exponent with
      | some (negative, ds) =>
        let v : Int := Text.digitsValue ds
        if negative then -v else v
      | none => 0
    some (.float (Binary64.nearest n.negative (Text.digitsValue (n.whole ++ ds)) (e - ds.length)))

/-! ### The scanner -/

/-- The words of the grammar. -/
def keywords : List (Text × Json) :=
  [("true".toList, .bool true), ("false".toList, .bool false), ("null".toList, .null),
    ("NaN".toList, .float .nan), ("Infinity".toList, .float (.infinite false)),
    ("-Infinity".toList, .float (.infinite true))]

/-- The segment of a JSON text that starts at a character. -/
def lexStep (_ : Unit) (c : Char) (r : Text) : Text.Cut Unit Lexeme :=
  if isBlank c then ⟨0, .blank, ()⟩
  else if isMark c then ⟨0, .token (.mark c), ()⟩
  else if c == '"' then
    match stringBody? r with
    | none => ⟨0, .junk, ()⟩
    | some body =>
      match decode? body with
      | some value => ⟨body.length + 1, .token (.string value), ()⟩
      | none => ⟨body.length + 1, .junk, ()⟩
  else
    match keywords.find? fun k => k.1.isPrefixOf (c :: r) with
    | some k => ⟨k.1.length - 1, .token (.scalar k.2), ()⟩
    | none =>
      match numeral? (c :: r) with
      | none => ⟨0, .junk, ()⟩
      | some n =>
        match n.value? with
        | some v => ⟨n.size - 1, .token (.scalar v), ()⟩
        | none => ⟨n.size - 1, .junk, ()⟩

/-- The lexical structure of a text. -/
def lexemes (t : Text) : List (Text.Segment Lexeme) :=
  Text.segment lexStep () t

/-- The tokens among the segments, if all segments belong to JSON. -/
def tokensOnto (done : List Token) : List (Text.Segment Lexeme) → Option (List Token)
  | [] => some done.reverse
  | ⟨.blank, _⟩ :: r => tokensOnto done r
  | ⟨.token t, _⟩ :: r => tokensOnto (t :: done) r
  | ⟨.junk, _⟩ :: _ => none

/-- The tokens of a JSON text. -/
def lex (t : Text) : Option (List Token) :=
  tokensOnto [] (lexemes t)

end Markdown.Json
