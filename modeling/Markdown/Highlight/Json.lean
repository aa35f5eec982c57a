import Markdown.Highlight.Nested
import Markdown.Json.Token

/-!
# JSON

A scanner for JSON source, valid or not. A string with a colon behind it is a key. With a
predicate for nested JSON, a string that holds an object or an array is shown by a toggle; its
identifier is `nj-` with the offset of the opening quote.
-/

namespace Markdown.Highlight.Json

/-- The length of the exponent at the start of a text. -/
def exponentLength (t : Text) : Nat :=
  match t with
  | e :: r =>
    if e = 'e' || e = 'E' then
      let sign := match r with
        | '+' :: _ => 1
        | '-' :: _ => 1
        | _ => 0
      let n := runLength Text.isDigit (r.drop sign)
      if n = 0 then 0 else 1 + sign + n
    else 0
  | [] => 0

/-- The length of the fraction at the start of a text. -/
def fractionLength (t : Text) : Nat :=
  match t with
  | '.' :: r =>
    let n := runLength Text.isDigit r
    if n = 0 then 0 else n + 1
  | _ => 0

/-- The length of the number at the start of a text; zero if there is none. -/
def numberLength (t : Text) : Nat :=
  let sign := if t.head? = some '-' then 1 else 0
  let whole := runLength Text.isDigit (t.drop sign)
  if whole = 0 then 0
  else
    let a := sign + whole
    let b := a + fractionLength (t.drop a)
    b + exponentLength (t.drop b)

/-- The words with a meaning, and their classes. -/
def words : List (Text × SpanClass) :=
  [("true".toList, .boolean), ("false".toList, .boolean), ("null".toList, .null)]

/-- The span that starts at a character. -/
def step (_ : Unit) (c : Char) (r : Text) : Text.Cut Unit (Option SpanClass) :=
  if c = '"' then
    let n := quotedLength true false '"' r
    if (Text.trimStart (r.drop n)).head? = some ':' then cut n (some .key) ()
    else cut n (some .string) ()
  else
    let n := numberLength (c :: r)
    if n ≠ 0 then cut (n - 1) (some .number) ()
    else
      match words.find? fun w => w.1.isPrefixOf (c :: r) with
      | some w => cut (w.1.length - 1) (some w.2) ()
      | none => cut 0 (if Markdown.Json.isMark c then some .punctuation else none) ()

/-- The spans of JSON source. -/
def spans (code : Text) : List Span :=
  Text.segment step () code

/-- The HTML of JSON source. -/
def plain (code : Text) : Text :=
  spansHtml (spans code)

/-- The value of a string, or the text between its ends if it is not valid. -/
def unquote (token : Text) : Text :=
  match Markdown.Json.read? token with
  | some (.string t) => t
  | _ => (token.drop 1).dropLast

/-- The toggle for a string that holds JSON. -/
def toggle (expanded : Text → Bool) (offset column : Nat) (token : Text) : Report (Option Text) := do
  match ← Nested.read? (unquote token) with
  | none => pure none
  | some v =>
    let id := Nested.idAt offset
    Report.note (.asked id)
    let shown := expanded id
    let inner := if shown then plain (Nested.format v column) else []
    pure (some (Nested.markup id (Html.escape token) shown inner))

/-- Writes one span that starts at an offset. -/
def writeSpan (expanded : Text → Bool) (state : Nat × Writer) (s : Span) :
    Report (Nat × Writer) := do
  let (offset, w) := state
  let next := offset + s.text.length
  if s.label = some .string then
    match ← toggle expanded offset w.column s.text with
    | some html => pure (next, ← w.markup html)
    | none => pure (next, w.span s)
  else pure (next, w.span s)

/-- The HTML of JSON source, with toggles for nested JSON if a predicate is given. -/
def highlight (expanded : Option (Text → Bool)) (code : Text) : Report Text :=
  match expanded with
  | none => pure (plain code)
  | some p => do
    let (_, w) ← (spans code).foldlM (writeSpan p) (0, Writer.empty)
    pure w.build

end Markdown.Highlight.Json
