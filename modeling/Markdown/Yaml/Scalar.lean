import Markdown.Yaml.Cursor

/-!
# Written forms of YAML scalars

Readers for the four ways to write a scalar: plain, in apostrophes, in double quotes, and as an
indented block. Each takes the position where the scalar starts and answers its text and the
position behind it.
-/

namespace Markdown.Yaml

/-! ### Quoted scalars -/

/-- The line breaks and the blanks between them at a position inside a quoted scalar. -/
def quotedBreaks : Nat → Cursor → Except Failure (Text × Cursor)
  | 0, _ => .error .malformed
  | fuel + 1, p =>
    if p.seesSeparator then .error .malformed
    else
      let p := (p.span fun c => c == ' ' || c == '\t').2
      match p.lineBreak? with
      | none => .ok ([], p)
      | some (b, p) => do
        let (bs, p) ← quotedBreaks fuel p
        .ok (b :: bs, p)

/-- The characters that one-letter escapes stand for. -/
def escapes : List (Char × Nat) :=
  [('0', 0), ('a', 7), ('b', 8), ('t', 9), ('\t', 9), ('n', 0xa), ('v', 0xb), ('f', 0xc),
    ('r', 0xd), ('e', 0x1b), (' ', 0x20), ('"', 0x22), ('\\', 0x5c), ('/', 0x2f), ('N', 0x85),
    ('_', 0xa0), ('L', 0x2028), ('P', 0x2029)]

/-- How many hexadecimal digits follow the letter of a numeric escape. -/
def escapeDigits? (c : Char) : Option Nat :=
  if c == 'x' then some 2 else if c == 'u' then some 4 else if c == 'U' then some 8 else none

/-- The character with a number. -/
def characterOf (n : Nat) : Except Failure Char :=
  if 0x7fffffff < n then .error (.broken .escapeOverflow)
  else if 0x10ffff < n then .error .malformed
  else if 0xd800 ≤ n && n < 0xe000 then .ok (Char.ofNat 0xfffd)
  else .ok (Char.ofNat n)

/-- The text that an escape stands for; the position is behind the backslash. -/
def readEscape (p : Cursor) : Except Failure (Text × Cursor) :=
  match p.peek with
  | none => .error .malformed
  | some c =>
    match escapes.find? fun e => e.1 == c with
    | some e => .ok ([Char.ofNat e.2], p.next)
    | none =>
      match escapeDigits? c with
      | some n =>
        let digits := p.next.rest.take n
        if digits.length == n && digits.all Text.isHexDigit then do
          let c ← characterOf (Text.hexValue digits)
          .ok ([c], p.next.advance n)
        else .error .malformed
      | none =>
        match p.lineBreak? with
        | some (_, p) => quotedBreaks (p.rest.length + 1) p
        | none => .error .malformed

/-- The text of a quoted scalar up to the next blank or to its end. -/
def quotedWord (double : Bool) : Nat → Cursor → Except Failure (Text × Cursor)
  | 0, p => .ok ([], p)
  | fuel + 1, p =>
    let (run, p) := p.span fun c => !(isSpacing c || c == '\'' || c == '"' || c == '\\')
    let go (piece : Text) (p : Cursor) : Except Failure (Text × Cursor) := do
      let (more, p) ← quotedWord double fuel p
      .ok (run ++ piece ++ more, p)
    match p.rest with
    | c :: r =>
      if !double && c == '\'' && r.head? == some '\'' then go ['\''] (p.advance 2)
      else if (double && c == '\'') || (!double && (c == '"' || c == '\\')) then go [c] p.next
      else if double && c == '\\' then do
        let (piece, p) ← readEscape p.next
        go piece p
      else .ok (run, p)
    | [] => .ok (run, p)

/-- The blanks between two words of a quoted scalar; a single line break counts as a space. -/
def quotedGap (p : Cursor) : Except Failure (Text × Cursor) :=
  let (blanks, p) := p.span fun c => c == ' ' || c == '\t'
  match p.peek with
  | none => .error .malformed
  | some _ =>
    match p.lineBreak? with
    | none => .ok (blanks, p)
    | some (b, p) => do
      let (bs, p) ← quotedBreaks (p.rest.length + 1) p
      let first := if b != '\n' then [b] else if bs.isEmpty then [' '] else []
      .ok (first ++ bs, p)

/-- The rest of a quoted scalar, behind its opening quote. -/
def quotedRest (quote : Char) : Nat → Cursor → Except Failure (Text × Cursor)
  | 0, _ => .error .malformed
  | fuel + 1, p => do
    let (word, p) ← quotedWord (quote == '"') (p.rest.length + 1) p
    if p.sees quote then .ok (word, p.next)
    else
      let (gap, p) ← quotedGap p
      let (more, p) ← quotedRest quote fuel p
      .ok (word ++ gap ++ more, p)

/-- A quoted scalar at its opening quote. -/
def readQuoted (quote : Char) (p : Cursor) : Except Failure (Text × Cursor) :=
  quotedRest quote (p.rest.length + 1) p.next

/-! ### Plain scalars -/

/-- Marks that end a plain scalar inside brackets. -/
def isFlowMark (c : Char) : Bool :=
  c == ',' || c == '[' || c == ']' || c == '{' || c == '}'

/-- Whether a colon in front of `t` ends a plain scalar. -/
def endsKey (flow : Bool) (t : Text) : Bool :=
  match t with
  | [] => true
  | c :: _ => isSpacing c || (flow && isFlowMark c)

/-- How many characters a plain scalar has up to the next blank. -/
def plainRun (flow : Bool) : Text → Nat
  | [] => 0
  | c :: r =>
    if isSpacing c || (c == ':' && endsKey flow r) || (flow && (c == '?' || isFlowMark c)) then 0
    else plainRun flow r + 1

/-- The line breaks at a position behind a line break, spaces skipped; nothing if a document ends
or starts on the way. -/
def plainBreaks : Nat → Cursor → Option Text × Cursor
  | 0, p => (some [], p)
  | fuel + 1, p =>
    let p := p.skipSpaces
    match p.lineBreak? with
    | none => (some [], p)
    | some (b, p) =>
      if p.seesSeparator then (none, p)
      else
        let (bs, p) := plainBreaks fuel p
        (bs.map (b :: ·), p)

/-- What stands between two words of a plain scalar: the text, whether a line has ended, and the
position behind it. -/
def plainGap (p : Cursor) : Text × Bool × Cursor :=
  let (blanks, p) := p.span (· == ' ')
  match p.lineBreak? with
  | none => (blanks, false, p)
  | some (b, p) =>
    if p.seesSeparator then ([], true, p)
    else
      match plainBreaks (p.rest.length + 1) p with
      | (none, p) => ([], true, p)
      | (some bs, p) =>
        let first := if b != '\n' then [b] else if bs.isEmpty then [' '] else []
        (first ++ bs, true, p)

/-- A plain scalar: its text, whether it ends behind a line end, and the position behind it.
Outside brackets it goes on only on lines that are indented at least to column `indent`. -/
def readPlain (flow : Bool) (indent : Int) : Nat → Cursor → Text × Bool × Cursor
  | 0, p => ([], false, p)
  | fuel + 1, p =>
    let n := if p.sees '#' then 0 else plainRun flow p.rest
    if n == 0 then ([], false, p)
    else
      let word := p.rest.take n
      let (gap, ended, p) := plainGap (p.advance n)
      if gap.isEmpty || p.sees '#' || (!flow && (p.column : Int) < indent) then (word, ended, p)
      else
        match readPlain flow indent fuel p with
        | ([], _, p) => (word, ended, p)
        | (more, last, p) => (word ++ gap ++ more, last, p)

/-! ### Block scalars -/

/-- The indicators behind `|` or `>`: what happens to the line breaks at the end (true: all stay,
false: none), and by how many columns the scalar is indented. -/
def blockHeader (p : Cursor) : Except Failure (Option Bool × Option Nat × Cursor) := do
  let keep? (p : Cursor) : Option Bool × Cursor :=
    if p.sees '+' then (some true, p.next)
    else if p.sees '-' then (some false, p.next)
    else (none, p)
  let indent? (p : Cursor) : Except Failure (Option Nat × Cursor) :=
    match p.peek with
    | some c =>
      if '0' ≤ c && c ≤ '9' then
        if c == '0' then .error .malformed else .ok (some (c.toNat - '0'.toNat), p.next)
      else .ok (none, p)
    | none => .ok (none, p)
  let (keep, p) := keep? p
  let (indent, p) ← indent? p
  let (keep, p) := match keep, indent with
    | none, some _ => keep? p
    | keep, _ => (keep, p)
  if p.atWordEnd then .ok (keep, indent, p) else .error .malformed

/-- The line breaks in front of a block scalar, the greatest column reached by their spaces, and
the position behind them. -/
def blockIndentation : Nat → Nat → Cursor → Text × Nat × Cursor
  | 0, deepest, p => ([], deepest, p)
  | fuel + 1, deepest, p =>
    let p := p.skipSpaces
    let deepest := max deepest p.column
    match p.lineBreak? with
    | none => ([], deepest, p)
    | some (b, p) =>
      let (bs, deepest, p) := blockIndentation fuel deepest p
      (b :: bs, deepest, p)

/-- The position behind at most as many spaces as lead to a column. -/
def skipTo (indent : Nat) (p : Cursor) : Cursor :=
  p.advance (min (p.rest.takeWhile (· == ' ')).length (indent - p.column))

/-- The line breaks at a position inside a block scalar. -/
def blockBreaks (indent : Nat) : Nat → Cursor → Text × Cursor
  | 0, p => ([], p)
  | fuel + 1, p =>
    let p := skipTo indent p
    match p.lineBreak? with
    | none => ([], p)
    | some (b, p) =>
      let (bs, p) := blockBreaks indent fuel p
      (b :: bs, p)

/-- Whether the next character is neither a space nor a tab. -/
def startsFlush (p : Cursor) : Bool :=
  match p.peek with
  | some c => !(c == ' ' || c == '\t')
  | none => true

/-- The lines of a block scalar behind the line breaks `breaks`: the text, the last line break,
the breaks behind it, and the position. -/
def blockLines (folded : Bool) (indent : Nat) :
    Nat → Text → Cursor → Text × Text × Text × Cursor
  | 0, breaks, p => ([], [], breaks, p)
  | fuel + 1, breaks, p =>
    if p.column == indent && p.peek.isSome then
      let flush := startsFlush p
      let (line, p) := p.span fun c => !isBreak c
      let (lineBreak, p) : Text × Cursor := match p.lineBreak? with
        | some (b, p) => ([b], p)
        | none => ([], p)
      let (after, p) := blockBreaks indent (p.rest.length + 1) p
      if p.column == indent && p.peek.isSome then
        let glue : Text :=
          if folded && lineBreak == ['\n'] && flush && startsFlush p then
            if after.isEmpty then [' '] else []
          else lineBreak
        let (more, last, tail, p) := blockLines folded indent fuel after p
        (breaks ++ line ++ glue ++ more, last, tail, p)
      else (breaks ++ line, lineBreak, after, p)
    else ([], [], breaks, p)

/-- A block scalar behind its `|` or `>`, in a collection indented to column `parent`. -/
def readBlock (folded : Bool) (parent : Int) (p : Cursor) : Except Failure (Text × Cursor) := do
  let (keep, increment, p) ← blockHeader p
  let p := p.skipSpaces.skipComment
  if !p.atLineEnd then .error .malformed
  else
    let p := p.skipBreak
    let least := (max (parent + 1) 1).toNat
    let (breaks, indent, p) := match increment with
      | none =>
        let (breaks, deepest, p) := blockIndentation (p.rest.length + 1) 0 p
        (breaks, max least deepest, p)
      | some k =>
        let indent := least + k - 1
        let (breaks, p) := blockBreaks indent (p.rest.length + 1) p
        (breaks, indent, p)
    let (text, last, tail, p) := blockLines folded indent (p.rest.length + 1) breaks p
    .ok (text ++ (if keep == some false then [] else last) ++
      (if keep == some true then tail else []), p)

end Markdown.Yaml
