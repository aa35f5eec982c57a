import Markdown.Highlight.Span
import Markdown.Text.Letters
import Markdown.Text.Ranges

/-!
# JavaScript and TypeScript

One scanner for both; TypeScript has more keywords. A slash starts a regular expression only where
an expression may begin, which is the state of the scanner.
-/

namespace Markdown.Highlight.Script

/-- The keywords of both languages. -/
def keywords : List Text :=
  ["async".toList, "await".toList, "break".toList, "case".toList, "catch".toList,
    "class".toList, "const".toList, "continue".toList, "debugger".toList, "default".toList,
    "delete".toList, "do".toList, "else".toList, "export".toList, "extends".toList,
    "finally".toList, "for".toList, "from".toList, "function".toList, "if".toList,
    "import".toList, "in".toList, "instanceof".toList, "let".toList, "new".toList, "of".toList,
    "return".toList, "as".toList, "static".toList, "super".toList, "switch".toList,
    "this".toList, "throw".toList, "try".toList, "typeof".toList, "var".toList, "void".toList,
    "while".toList, "with".toList, "yield".toList]

/-- The further keywords of TypeScript. -/
def typeKeywords : List Text :=
  ["type".toList, "interface".toList, "enum".toList, "namespace".toList, "declare".toList,
    "abstract".toList, "implements".toList, "readonly".toList, "keyof".toList, "infer".toList,
    "is".toList, "asserts".toList, "override".toList, "satisfies".toList, "public".toList,
    "private".toList, "protected".toList, "never".toList, "unknown".toList, "any".toList]

/-- The truth values. -/
def truthWords : List Text :=
  ["true".toList, "false".toList]

/-- The words for nothing and for odd numbers. -/
def nullWords : List Text :=
  ["null".toList, "undefined".toList, "NaN".toList, "Infinity".toList]

/-- The keywords in front of an expression. -/
def expressionKeywords : List Text :=
  ["return".toList, "typeof".toList, "instanceof".toList, "in".toList, "of".toList,
    "new".toList, "delete".toList, "void".toList, "throw".toList, "case".toList, "do".toList,
    "else".toList, "yield".toList, "await".toList]

/-- The operators, longer ones first. -/
def operators : List Text :=
  [">>>=".toList, "===".toList, "!==".toList, "**=".toList, "...".toList, "<<=".toList,
    ">>=".toList, ">>>".toList, "&&=".toList, "||=".toList, "??=".toList, "=>".toList,
    "==".toList, "!=".toList, "<=".toList, ">=".toList, "&&".toList, "||".toList, "??".toList,
    "++".toList, "--".toList, "+=".toList, "-=".toList, "*=".toList, "/=".toList, "%=".toList,
    "&=".toList, "|=".toList, "^=".toList, "**".toList, "<<".toList, ">>".toList, "=".toList,
    "+".toList, "-".toList, "*".toList, "/".toList, "%".toList, "<".toList, ">".toList,
    "!".toList, "~".toList, "&".toList, "|".toList, "^".toList, "?".toList, ":".toList]

/-- A mark of punctuation. -/
def isPunctuation (c : Char) : Bool :=
  "\x7b\x7d()[];,.".toList.contains c

/-- A mark of punctuation in front of an expression. -/
def opensExpression (c : Char) : Bool :=
  "([\x7b,;".toList.contains c

/-- How many characters follow the opening backtick of a template, whose braces are counted. -/
def templateLength (depth : Nat) : Text → Nat
  | [] => 0
  | c :: r =>
    if c = '\\' && !r.isEmpty then
      match r with
      | [] => 1
      | _ :: r => templateLength depth r + 2
    else if depth = 0 && c = '\x60' then 1
    else if c = '$' && r.head? = some '{' then
      match r with
      | [] => 1
      | _ :: r => templateLength (depth + 1) r + 2
    else if depth ≠ 0 && c = '{' then templateLength (depth + 1) r + 1
    else if depth ≠ 0 && c = '}' then templateLength (depth - 1) r + 1
    else templateLength depth r + 1

/-- How many characters follow the opening slash of a regular expression, its flags included. A
slash inside brackets does not end it; a line feed does. -/
def regexLength (inClass : Bool) : Text → Nat
  | [] => 0
  | c :: r =>
    if c = '\\' && !r.isEmpty then
      match r with
      | [] => 1
      | _ :: r => regexLength inClass r + 2
    else if c = '\n' then 0
    else if c = '[' then regexLength true r + 1
    else if c = ']' then regexLength false r + 1
    else if c = '/' && !inClass then 1 + runLength Text.isLetter r
    else regexLength inClass r + 1

/-- How many characters of a comment follow its first slash. -/
def commentLength (r : Text) : Nat :=
  match r with
  | '*' :: t => 1 + lengthThrough "*/".toList t
  | r => runLength (· ≠ '\n') r

/-- The length of digits of some kind behind a zero and a mark; zero if there are none. -/
def markedLength (mark : Char → Bool) (digit : Char → Bool) (t : Text) : Nat :=
  match t with
  | '0' :: x :: r =>
    let n := runLength digit r
    if mark x && n ≠ 0 then 2 + n else 0
  | _ => 0

/-- The length of the decimal number at the start of a text; zero if there is none. -/
def decimalLength (t : Text) : Nat :=
  let digits (t : Text) : Nat := runLength Text.isDigit t
  let mantissa :=
    if digits t ≠ 0 then
      let whole := runLength (fun c => Text.isDigit c || c = '_') t
      match t.drop whole with
      | '.' :: r => whole + 1 + digits r
      | _ => whole
    else
      match t with
      | '.' :: r => if digits r = 0 then 0 else 1 + digits r
      | _ => 0
  let exponent := match t.drop mantissa with
    | e :: r =>
      if e = 'e' || e = 'E' then
        let sign := match r with
          | '+' :: _ => 1
          | '-' :: _ => 1
          | _ => 0
        let n := digits (r.drop sign)
        if n = 0 then 0 else 1 + sign + n
      else 0
    | [] => 0
  if mantissa = 0 then 0 else mantissa + exponent

/-- The length of the number at the start of a text; zero if there is none. A final `n` belongs
to it. -/
def numberLength (t : Text) : Nat :=
  let hex := markedLength (fun c => c = 'x' || c = 'X') (fun c => Text.isHexDigit c || c = '_') t
  let binary := markedLength (fun c => c = 'b' || c = 'B')
    (fun c => c = '0' || c = '1' || c = '_') t
  let octal := markedLength (fun c => c = 'o' || c = 'O')
    (fun c => ('0' ≤ c && c ≤ '7') || c = '_') t
  let n := if hex ≠ 0 then hex else if binary ≠ 0 then binary
    else if octal ≠ 0 then octal else decimalLength t
  if n ≠ 0 && (t.drop n).head? = some 'n' then n + 1 else n

/-- A character inside an identifier. -/
def isNameChar (c : Char) : Bool :=
  Text.isWord c || c = '$'

/-- Whether an identifier may start with a character. -/
def startsName (c : Char) : Bool :=
  (Text.isWord c && !Text.isDigit c) || c = '$'

/-- The class of a word, with further keywords. -/
def wordClass (extra : List Text) (word : Text) : Option SpanClass :=
  if truthWords.contains word then some .boolean
  else if nullWords.contains word then some .null
  else if keywords.contains word || extra.contains word then some .keyword
  else none

/-- The span that starts at a character. The state tells whether an expression may start. -/
def step (extra : List Text) (expression : Bool) (c : Char) (r : Text) :
    Text.Cut Bool (Option SpanClass) :=
  if Text.isBlank c then cut (runLength Text.isBlank r) none expression
  else if c = '/' && (r.head? = some '/' || r.head? = some '*') then
    cut (commentLength r) (some .comment) expression
  else if c = '"' || c = '\'' then cut (quotedLength true true c r) (some .string) false
  else if c = '\x60' then cut (templateLength 0 r) (some .template) false
  else if c = '/' && expression then cut (regexLength false r) (some .regex) false
  else if "...".toList.isPrefixOf (c :: r) then cut 2 (some .operator) true
  else
    let number := numberLength (c :: r)
    if number ≠ 0 then cut (number - 1) (some .number) false
    else if startsName c then
      let n := runLength isNameChar r
      let word := c :: r.take n
      cut n (wordClass extra word)
        (wordClass extra word = some .keyword && expressionKeywords.contains word)
    else if isPunctuation c then cut 0 (some .punctuation) (opensExpression c)
    else
      match operators.find? fun o => o.isPrefixOf (c :: r) with
      | some o => cut (o.length - 1) (some .operator) true
      | none => cut 0 none false

/-- The spans of source text, with further keywords. -/
def spans (extra : List Text) (code : Text) : List Span :=
  Text.segment (step extra) true code

end Markdown.Highlight.Script
