import Markdown.Text.Letters

/-!
# Kinds of YAML nodes

The tag of a node says how its text is understood. A plain scalar without a tag gets one from its
shape; `implicitTag` states these shapes. One line feed may follow the text of a shape.
-/

namespace Markdown.Yaml

/-- The tag of a node. -/
inductive Tag where
  /-- Nothing. -/
  | null
  /-- A truth value. -/
  | bool
  /-- A whole number. -/
  | int
  /-- Another number. -/
  | float
  /-- Bytes in base 64. -/
  | binary
  /-- A date or a time. -/
  | timestamp
  /-- An ordered mapping. -/
  | omap
  /-- A list of pairs. -/
  | pairs
  /-- A set. -/
  | set
  /-- A string. -/
  | str
  /-- A sequence. -/
  | seq
  /-- A mapping. -/
  | map
  /-- The key whose value is merged into its mapping. -/
  | merge
  /-- The key of a default value. -/
  | value
  /-- Any other tag. -/
  | unknown
  deriving DecidableEq, Repr

/-- What the known tags begin with. -/
def tagHead : Text := "tag:yaml.org,2002:".toList

/-- The known tags by their names behind `tagHead`. -/
def tagNames : List (Text × Tag) :=
  [("null".toList, .null), ("bool".toList, .bool), ("int".toList, .int),
    ("float".toList, .float), ("binary".toList, .binary), ("timestamp".toList, .timestamp),
    ("omap".toList, .omap), ("pairs".toList, .pairs), ("set".toList, .set),
    ("str".toList, .str), ("seq".toList, .seq), ("map".toList, .map),
    ("merge".toList, .merge), ("value".toList, .value)]

/-- The tag with a full name. -/
def Tag.ofName (name : Text) : Tag :=
  match Text.after? tagHead name with
  | none => .unknown
  | some short => ((tagNames.find? fun t => t.1 == short).map (·.2)).getD .unknown

/-! ### Shapes of plain scalars -/

/-- The text without a line feed at its end. -/
def dropFinalBreak (t : Text) : Text :=
  if t.getLast? == some '\n' then t.dropLast else t

/-- Digits, or underscores behind the first character. -/
def isDigitRun (digit : Char → Bool) (t : Text) : Bool :=
  t.all fun c => digit c || c == '_'

/-- The text without a sign. -/
def unsigned : Text → Text
  | '+' :: r => r
  | '-' :: r => r
  | t => t

/-- A binary digit. -/
def isBinaryDigit (c : Char) : Bool := c == '0' || c == '1'

/-- An octal digit. -/
def isOctalDigit (c : Char) : Bool := '0' ≤ c && c ≤ '7'

/-- A hexadecimal digit. -/
def isHexadecimalDigit (c : Char) : Bool :=
  Text.isAsciiDigit c || ('a' ≤ c && c ≤ 'f') || ('A' ≤ c && c ≤ 'F')

/-- A number below sixty, in one or two digits. -/
def isSexagesimalPart (t : Text) : Bool :=
  match t with
  | [a] => Text.isAsciiDigit a
  | [a, b] => '0' ≤ a && a ≤ '5' && Text.isAsciiDigit b
  | _ => false

/-- Groups of base sixty behind digits that begin as `first` says. -/
def isSexagesimal (first : Char → Bool) (t : Text) : Bool :=
  match t.splitOn ':' with
  | (c :: r) :: part :: parts =>
    first c && isDigitRun Text.isAsciiDigit r && (part :: parts).all isSexagesimalPart
  | _ => false

/-- A digit other than zero. -/
def isNonZeroDigit (c : Char) : Bool := '1' ≤ c && c ≤ '9'

/-- A whole number: binary, octal, decimal, hexadecimal or to base sixty. -/
def isIntShape (t : Text) : Bool :=
  match unsigned t with
  | '0' :: 'b' :: c :: r => isDigitRun isBinaryDigit (c :: r)
  | '0' :: 'x' :: c :: r => isDigitRun isHexadecimalDigit (c :: r)
  | '0' :: r => isDigitRun isOctalDigit r
  | c :: r =>
    isNonZeroDigit c && (isDigitRun Text.isAsciiDigit r || isSexagesimal isNonZeroDigit (c :: r))
  | [] => false

/-- Nothing, or an exponent with a sign. -/
def isExponentOrEnd (t : Text) : Bool :=
  match t with
  | [] => true
  | e :: s :: d :: r =>
    (e == 'e' || e == 'E') && (s == '-' || s == '+') && (d :: r).all Text.isAsciiDigit
  | _ => false

/-- Digits behind a point, and perhaps an exponent. -/
def isFractionTail (t : Text) : Bool :=
  isExponentOrEnd (t.dropWhile fun c => Text.isAsciiDigit c || c == '_')

/-- A number with a point: decimal, to base sixty, infinite, or none. -/
def isFloatShape (t : Text) : Bool :=
  let body := unsigned t
  let decimal := match body with
    | c :: r =>
      Text.isAsciiDigit c &&
        (match r.dropWhile fun c => Text.isAsciiDigit c || c == '_' with
          | '.' :: tail => isFractionTail tail
          | _ => false)
    | [] => false
  let pointed := match t with
    | '.' :: c :: tail => Text.isAsciiDigit c && isFractionTail tail
    | _ => false
  let sexagesimal := match Text.cutAt? '.' body with
    | some (whole, tail) =>
      isSexagesimal Text.isAsciiDigit whole && isDigitRun Text.isAsciiDigit tail
    | none => false
  decimal || pointed || sexagesimal ||
    [".inf".toList, ".Inf".toList, ".INF".toList].contains body ||
    [".nan".toList, ".NaN".toList, ".NAN".toList].contains t

/-- The written forms of truth values. -/
def truthWords : List Text :=
  ["yes".toList, "Yes".toList, "YES".toList, "no".toList, "No".toList, "NO".toList,
    "true".toList, "True".toList, "TRUE".toList, "false".toList, "False".toList, "FALSE".toList,
    "on".toList, "On".toList, "ON".toList, "off".toList, "Off".toList, "OFF".toList]

/-- The written forms of nothing. -/
def nullWords : List Text :=
  [[], "~".toList, "null".toList, "Null".toList, "NULL".toList]

/-! ### Dates and times -/

/-- The digits at the start of a text, at least `low` and at most `high` of them. -/
def takeDigits (low high : Nat) (t : Text) : Option (Nat × Text) :=
  let ds := (t.take high).takeWhile Text.isAsciiDigit
  if ds.length < low then none else some (Text.digitsValue ds, t.drop ds.length)

/-- What follows a character at the start of a text. -/
def skipChar (c : Char) : Text → Option Text
  | d :: r => if d = c then some r else none
  | [] => none

/-- A time of day with a fraction of a second and a zone. -/
structure Clock where
  /-- The hour. -/
  hour : Nat
  /-- The minute. -/
  minute : Nat
  /-- The second. -/
  second : Nat
  /-- The hours and minutes between the zone and universal time, without sign. -/
  zone : Option (Nat × Nat)

/-- A date, perhaps with a time of day. -/
structure Timestamp where
  /-- The year. -/
  year : Nat
  /-- The month. -/
  month : Nat
  /-- The day. -/
  day : Nat
  /-- The time of day. -/
  clock : Option Clock

/-- A blank inside a time. -/
def isTimeBlank (c : Char) : Bool := c == ' ' || c == '\t'

/-- A zone that ends a text: nothing, `Z`, or hours and minutes behind a sign. -/
def readZone (t : Text) : Option (Option (Nat × Nat)) :=
  if t.isEmpty then some none
  else
    match t.dropWhile isTimeBlank with
    | ['Z'] => some none
    | s :: r =>
      if s == '+' || s == '-' then do
        let (h, r) ← takeDigits 1 2 r
        match r with
        | [] => some (some (h, 0))
        | ':' :: r => do
          let (m, r) ← takeDigits 2 2 r
          if r.isEmpty then some (some (h, m)) else none
        | _ => none
      else none
    | [] => none

/-- A time of day that ends a text. -/
def readClock (t : Text) : Option Clock := do
  let (hour, t) ← takeDigits 1 2 t
  let t ← skipChar ':' t
  let (minute, t) ← takeDigits 2 2 t
  let t ← skipChar ':' t
  let (second, t) ← takeDigits 2 2 t
  let t := match t with
    | '.' :: r => r.dropWhile Text.isAsciiDigit
    | t => t
  let zone ← readZone t
  some ⟨hour, minute, second, zone⟩

/-- A date, perhaps with a time behind `T` or blanks. -/
def readTimestamp (t : Text) : Option Timestamp := do
  let (year, t) ← takeDigits 4 4 t
  let t ← skipChar '-' t
  let (month, t) ← takeDigits 1 2 t
  let t ← skipChar '-' t
  let (day, t) ← takeDigits 1 2 t
  match t with
  | [] => some ⟨year, month, day, none⟩
  | c :: r =>
    let rest ← if c == 'T' || c == 't' then some r
      else if isTimeBlank c then some (r.dropWhile isTimeBlank)
      else none
    let clock ← readClock rest
    some ⟨year, month, day, some clock⟩

/-- A date of ten characters, or a date with a time of day. -/
def isTimestampShape (t : Text) : Bool :=
  match readTimestamp t with
  | some s => s.clock.isSome || t.length == 10
  | none => false

/-- The tag that the shape of a plain scalar gives. A lone line feed has no shape. -/
def implicitTag (text : Text) : Tag :=
  let t := dropFinalBreak text
  if text == ['\n'] then .str
  else if truthWords.contains t then .bool
  else if isFloatShape t then .float
  else if isIntShape t then .int
  else if t == "<<".toList then .merge
  else if nullWords.contains t then .null
  else if isTimestampShape t then .timestamp
  else if t == "=".toList then .value
  else if t == "!".toList || t == "&".toList || t == "*".toList then .unknown
  else .str

end Markdown.Yaml
