import Markdown.Highlight.Json
import Markdown.Text.Caseless

/-!
# YAML

A scanner for YAML source that goes line by line. Its mode tells whether a line continues a block
scalar, a quoted string or a value of several lines. With a predicate for nested JSON, a value
that holds an object or an array is shown by a toggle; its identifier is `nj-` with the offset of
the value. Comments are shown like punctuation.
-/

namespace Markdown.Highlight.Yaml

/-- What a line may continue. -/
inductive Mode where
  /-- Nothing. -/
  | plain
  /-- A block scalar whose key stands at an indentation. -/
  | block (indent : Nat)
  /-- A string in the given quotes. -/
  | quoted (quote : Char)
  /-- An unquoted value whose key stands at an indentation. -/
  | unquoted (indent : Nat)
  deriving DecidableEq, Repr

/-- The number of blanks at the start of a line. -/
def indent (line : Text) : Nat :=
  runLength Text.isBlank line

/-- The place of the first quote that no backslash hides. -/
def closingQuote? (quote : Char) : Text → Option Nat
  | [] => none
  | c :: r =>
    if c = '\\' then
      match r with
      | [] => none
      | _ :: r => (closingQuote? quote r).map (· + 2)
    else if c = quote then some 0
    else (closingQuote? quote r).map (· + 1)

/-- A quote of either kind. -/
def isQuote (c : Char) : Bool :=
  c = '"' || c = '\''

/-- Whether a value stands between equal quotes. -/
def isQuoted (value : Text) : Bool :=
  match value with
  | c :: r => !r.isEmpty && isQuote c && value.getLast? = some c
  | [] => false

/-- The text without a line feed at its end. -/
def dropFinalBreak (t : Text) : Text :=
  if t.getLast? = some '\n' then t.dropLast else t

/-- The head of a block scalar. -/
def isBlockHead (value : Text) : Bool :=
  match dropFinalBreak value with
  | c :: r =>
    (c = '|' || c = '>') &&
      (match r with
        | s :: t => if s = '-' || s = '+' then t.all Text.isDigit else r.all Text.isDigit
        | [] => true)
  | [] => false

/-- A number. -/
def isNumber (value : Text) : Bool :=
  let t := dropFinalBreak value
  let n := Json.numberLength t
  n ≠ 0 && n = t.length

/-- The class of a value on one line. -/
def scalarClass (value : Text) : SpanClass :=
  let t := dropFinalBreak value
  if isQuoted value then .string
  else if isNumber value then .number
  else if Text.isWordOf "true".toList t || Text.isWordOf "false".toList t then .boolean
  else if Text.isWordOf "null".toList t || t = ['~'] then .null
  else if isBlockHead value then .punctuation
  else .string

/-- The HTML of a value on one line. -/
def scalar (value : Text) : Text :=
  wrap (scalarClass value) (Html.escape value)

/-- The HTML of a text that is part of a string. -/
def stringPart (t : Text) : Text :=
  wrap .string (Html.escape t)

/-- A key with its colon and what stands behind it. -/
structure Pair where
  /-- The blanks before the key. -/
  lead : Text
  /-- The key. -/
  key : Text
  /-- The blanks behind the colon. -/
  space : Text
  /-- The value. -/
  value : Text

/-- The offset of the value of a pair. -/
def Pair.valueOffset (p : Pair) : Nat :=
  p.lead.length + p.key.length + 1 + p.space.length

/-- The pair on a line. A blank or the line end must follow the colon; in front of the colon at
least one character must stand, which may be a blank. -/
def pair? (line : Text) : Option Pair :=
  match Text.cutAt? ':' line with
  | none => none
  | some (before, after) =>
    let blanks := before.takeWhile Text.isBlank
    let n := if blanks.length = before.length then before.length - 1 else blanks.length
    let ended := match after with
      | [] => true
      | c :: _ => Text.isBlank c
    if before.isEmpty || !ended then none
    else
      some ⟨before.take n, before.drop n, after.takeWhile Text.isBlank,
        after.dropWhile Text.isBlank⟩

/-- The entry on a line: the blanks before its dash, those behind it, and the rest. -/
def entry? (line : Text) : Option (Text × Text × Text) :=
  match line.dropWhile Text.isBlank with
  | '-' :: r =>
    if r.isEmpty || (r.head?.map Text.isBlank).getD false then
      some (line.takeWhile Text.isBlank, r.takeWhile Text.isBlank, r.dropWhile Text.isBlank)
    else none
  | _ => none

/-- Whether an unquoted value goes on in the next line: it is deeper than the key and neither a
pair nor an entry. -/
def goesOn (indentation : Nat) (next : Option Text) : Bool :=
  match next with
  | none => false
  | some line =>
    let t := Text.trim line
    !t.isEmpty && indentation < indent line && ':' ∉ t && t.head? ≠ some '-'

/-- The toggle for a value that holds JSON. -/
def toggle (expanded : Text → Bool) (offset : Nat) (value : Text) : Report (Option Text) := do
  let candidate := if isQuoted value then (value.drop 1).dropLast else value
  match ← Nested.read? candidate with
  | none => pure none
  | some v =>
    let id := Nested.idAt offset
    Report.note (.asked id)
    let shown := expanded id
    let inner := if shown then Json.plain (Nested.format v 0) else []
    pure (some (Nested.markup id (Html.escape value) shown inner))

/-- The HTML of a value at an offset, and the mode behind it. -/
def valueHtml (expanded : Option (Text → Bool)) (offset indentation : Nat) (value : Text) :
    Report (Text × Mode) :=
  match value with
  | [] => pure ([], .plain)
  | q :: r =>
    if isBlockHead (Text.trim value) then
      pure (wrap .punctuation (Html.escape value), .block indentation)
    else if isQuote q && !r.isEmpty && (closingQuote? q r).isNone then
      pure (stringPart value, .quoted q)
    else
      match expanded with
      | none => pure (scalar value, .plain)
      | some p => do
        match ← toggle p offset value with
        | some html => pure (html, .plain)
        | none => pure (scalar value, .plain)

/-- The HTML of a pair at an offset, and the mode behind it. -/
def pairHtml (expanded : Option (Text → Bool)) (offset indentation : Nat) (next : Option Text)
    (p : Pair) : Report (Text × Mode) := do
  let head := Html.escape p.lead ++ wrap .key (Html.escape p.key) ++ wrap .punctuation [':'] ++
    Html.escape p.space
  match p.value with
  | [] => pure (head, .plain)
  | q :: _ =>
    if !isQuote q && !isBlockHead (Text.trim p.value) && goesOn indentation next then
      pure (head ++ stringPart p.value, .unquoted indentation)
    else
      let (html, mode) ← valueHtml expanded (offset + p.valueOffset) indentation p.value
      pure (head ++ html, mode)

/-- The HTML of a line that continues nothing. -/
def freshLine (expanded : Option (Text → Bool)) (offset : Nat) (line : Text)
    (next : Option Text) : Report (Text × Mode) :=
  let indentation := indent line
  if (line.dropWhile Text.isBlank).head? = some '#' then
    pure (Html.escape (line.takeWhile Text.isBlank) ++
      wrap .punctuation (Html.escape (line.dropWhile Text.isBlank)), .plain)
  else
    match entry? line with
    | some (lead, space, rest) => do
      let dash := Html.escape lead ++ wrap .punctuation ['-'] ++ Html.escape space
      let offset := offset + lead.length + 1 + space.length
      let (html, mode) ← match pair? rest with
        | some p => pairHtml expanded offset indentation next p
        | none => valueHtml expanded offset indentation rest
      pure (dash ++ html, mode)
    | none =>
      match pair? line with
      | some p => pairHtml expanded offset indentation next p
      | none => pure (Html.escape line, .plain)

/-- The HTML of a line at an offset, and the mode behind it. -/
def lineHtml (expanded : Option (Text → Bool)) (mode : Mode) (offset : Nat) (line : Text)
    (next : Option Text) : Report (Text × Mode) :=
  let visible := !Text.allBlank line
  match mode with
  | .plain => freshLine expanded offset line next
  | .block n =>
    if visible && indent line ≤ n then freshLine expanded offset line next
    else pure (if line.isEmpty then [] else stringPart line, mode)
  | .unquoted n =>
    if visible && indent line ≤ n then freshLine expanded offset line next
    else pure (if visible then stringPart line else Html.escape line, mode)
  | .quoted q =>
    match closingQuote? q line with
    | none => pure (if line.isEmpty then [] else stringPart line, mode)
    | some n => pure (stringPart (line.take (n + 1)) ++ Html.escape (line.drop (n + 1)), .plain)

/-- The HTML of lines, the first of which stands at an offset. -/
def linesHtml (expanded : Option (Text → Bool)) (mode : Mode) (offset : Nat) :
    List Text → Report (List Text)
  | [] => pure []
  | line :: rest => do
    let (html, mode) ← lineHtml expanded mode offset line rest.head?
    let more ← linesHtml expanded mode (offset + line.length + 1) rest
    pure (html :: more)

/-- The HTML of YAML source, with toggles for nested JSON if a predicate is given. -/
def highlight (expanded : Option (Text → Bool)) (code : Text) : Report Text := do
  let ls ← linesHtml expanded .plain 0 (Text.lines code)
  pure (Text.unlines ls)

end Markdown.Highlight.Yaml
