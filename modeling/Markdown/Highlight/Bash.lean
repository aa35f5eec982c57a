import Markdown.Highlight.Span
import Markdown.Text.Letters
import Markdown.Text.Ranges

/-!
# Shell

A scanner for shell source. Any word in the place of a command is a keyword, known or not. That
place is the start of a line, and what follows an operator that starts a command, an opening
parenthesis or brace, or a shell keyword.
-/

namespace Markdown.Highlight.Bash

/-- The words of the shell language. -/
def keywords : List Text :=
  ["if".toList, "then".toList, "else".toList, "elif".toList, "fi".toList, "for".toList,
    "while".toList, "until".toList, "do".toList, "done".toList, "case".toList, "esac".toList,
    "in".toList, "function".toList, "return".toList, "local".toList, "export".toList,
    "source".toList, "eval".toList, "exec".toList, "select".toList]

/-- The operators, longer ones first, and whether a command follows them. -/
def operators : List (Text × Bool) :=
  [("||".toList, true), ("&&".toList, true), (";;".toList, true), (">>".toList, false),
    ("<<".toList, false), ("2>".toList, false), ("&>".toList, false), ("|".toList, true),
    (";".toList, true), (">".toList, false), ("<".toList, false), ("&".toList, false)]

/-- How many characters of a variable follow its dollar sign. -/
def variableLength (r : Text) : Nat :=
  match r with
  | '{' :: t =>
    let n := runLength (· ≠ '}') t
    if n = t.length then n + 1 else n + 2
  | c :: t =>
    if Text.isAsciiDigit c || "@?#$!*_".toList.contains c then 1
    else if Text.isAsciiLetter c then 1 + runLength Text.isWord t
    else 0
  | [] => 0

/-- Whether a word character stands at the start of a text. -/
def startsWord (t : Text) : Bool :=
  (t.head?.map Text.isWord).getD false

/-- The length of the number at the start of a text; zero if there is none. -/
def numberLength (t : Text) : Nat :=
  let hex := match t with
    | '0' :: x :: r => if x = 'x' || x = 'X' then 2 + runLength Text.isHexDigit r else 0
    | _ => 0
  if hex ≠ 0 && !startsWord (t.drop hex) then hex
  else
    let n := runLength Text.isDigit t
    if n ≠ 0 && !startsWord (t.drop n) then n else 0

/-- A character of a command. -/
def isCommandChar (c : Char) : Bool :=
  Text.isAsciiLetter c || Text.isAsciiDigit c || "_-./:".toList.contains c

/-- Whether a command may start with a character. -/
def startsCommand (c : Char) : Bool :=
  c = '.' || c = '/' || Text.isLetter c || c = '_'

/-- A bracket of any kind. -/
def isBracket (c : Char) : Bool :=
  "()\x7b\x7d[]".toList.contains c

/-- The length of the word at the start of a text; zero if there is none. -/
def wordLength (t : Text) : Nat :=
  match t with
  | c :: r => if Text.isAsciiLetter c || c = '_' then 1 + runLength Text.isWord r else 0
  | [] => 0

/-- The span that starts at a character. The state tells whether a command is expected. -/
def step (expect : Bool) (c : Char) (r : Text) : Text.Cut Bool (Option SpanClass) :=
  if c = '\n' then cut 0 none true
  else if c = ' ' || c = '\t' then cut 0 none expect
  else if c = '#' then cut (runLength (· ≠ '\n') r) (some .comment) expect
  else if c = '"' || c = '\'' then cut (quotedLength (c = '"') false c r) (some .string) false
  else if c = '$' then cut (variableLength r) (some .variable) false
  else
    match operators.find? fun o => o.1.isPrefixOf (c :: r) with
    | some o => cut (o.1.length - 1) (some .operator) (o.2 || expect)
    | none =>
      let number := numberLength (c :: r)
      let command := runLength isCommandChar (c :: r)
      let word := wordLength (c :: r)
      if number ≠ 0 then cut (number - 1) (some .number) false
      else if expect && startsCommand c && command ≠ 0 then
        cut (command - 1) (some .keyword) (keywords.contains ((c :: r).take command))
      else if word ≠ 0 then
        if keywords.contains ((c :: r).take word) then cut (word - 1) (some .keyword) true
        else cut (word - 1) none expect
      else if isBracket c then cut 0 (some .punctuation) (expect || c = '(' || c = '{')
      else cut 0 none expect

/-- The spans of shell source. -/
def spans (code : Text) : List Span :=
  Text.segment step true code

end Markdown.Highlight.Bash
