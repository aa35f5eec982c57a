import Markdown.Text.Numeral
import Markdown.Yaml.Scalar

/-!
# Tokens of YAML

`Yaml.scan` cuts a text into tokens. Indentation becomes tokens that open and close blocks, and a
colon turns the token that could be a key in front of it into a key. A token that may still turn
out to be a key is held back, so the tokens come with the failure, if any, that stopped the scan:
a reader meets it only behind the tokens released before it.
-/

namespace Markdown.Yaml

/-- What a line with a percent sign says about the document that follows. -/
inductive Directive where
  /-- The first part of the version of the language. -/
  | version (major : Nat)
  /-- The text that a tag handle stands for. -/
  | handle (name text : Text)
  /-- Nothing that is known. -/
  | other
  deriving DecidableEq, Repr

/-- A token of YAML. -/
inductive Token where
  /-- A directive. -/
  | directive (d : Directive)
  /-- `---`. -/
  | documentStart
  /-- `...`. -/
  | documentEnd
  /-- The end of the text. -/
  | streamEnd
  /-- The start of an indented sequence. -/
  | blockSequence
  /-- The start of an indented mapping. -/
  | blockMapping
  /-- The end of an indented sequence or mapping. -/
  | blockEnd
  /-- `[`. -/
  | flowSequence
  /-- `]`. -/
  | flowSequenceEnd
  /-- `{`. -/
  | flowMapping
  /-- `}`. -/
  | flowMappingEnd
  /-- `-` in front of an entry. -/
  | blockEntry
  /-- A comma. -/
  | flowEntry
  /-- The start of a key. -/
  | key
  /-- The colon in front of a value. -/
  | value
  /-- `*name`. -/
  | alias (name : Text)
  /-- `&name`. -/
  | anchor (name : Text)
  /-- A tag: its handle, if it has one, and the rest. -/
  | tag (handle : Option Text) (suffix : Text)
  /-- A scalar; `plain` tells that it is not quoted. -/
  | scalar (value : Text) (plain : Bool)
  deriving DecidableEq, Repr

/-! ### Names and tags -/

/-- A character of an anchor or a tag handle. -/
def isNameChar (c : Char) : Bool :=
  ('0' ≤ c && c ≤ '9') || ('A' ≤ c && c ≤ 'Z') || ('a' ≤ c && c ≤ 'z') || c == '-' || c == '_'

/-- The name behind `*` or `&`. -/
def readName (p : Cursor) : Except Failure (Text × Cursor) :=
  let (name, p) := p.next.span isNameChar
  let closed := match p.peek with
    | none => true
    | some c => isSpacing c || "?:,]\x7d%@".toList.contains c || c.toNat == 0x60
  if name.isEmpty || !closed then .error .malformed else .ok (name, p)

/-- A character of a tag, the percent sign excepted. -/
def isTagChar (c : Char) : Bool :=
  isNameChar c || ";/?:@&=+$,.!~*'()[]".toList.contains c

/-- Whether bytes are well-formed UTF-8. -/
def isUtf8 : List Nat → Bool
  | [] => true
  | a :: r =>
    let tail (n low high : Nat) (r : List Nat) : Bool :=
      match n, r with
      | 1, b :: _ => low ≤ b && b ≤ high
      | 2, b :: c :: _ => low ≤ b && b ≤ high && 0x80 ≤ c && c ≤ 0xbf
      | 3, b :: c :: d :: _ =>
        low ≤ b && b ≤ high && 0x80 ≤ c && c ≤ 0xbf && 0x80 ≤ d && d ≤ 0xbf
      | _, _ => false
    if a < 0x80 then isUtf8 r
    else if a < 0xc2 then false
    else if a < 0xe0 then tail 1 0x80 0xbf r && isUtf8 (r.drop 1)
    else if a < 0xf0 then
      tail 2 (if a == 0xe0 then 0xa0 else 0x80) (if a == 0xed then 0x9f else 0xbf) r &&
        isUtf8 (r.drop 2)
    else if a < 0xf5 then
      tail 3 (if a == 0xf0 then 0x90 else 0x80) (if a == 0xf4 then 0x8f else 0xbf) r &&
        isUtf8 (r.drop 3)
    else false
termination_by bytes => bytes.length
decreasing_by all_goals simp only [List.length_cons, List.length_drop]; omega

/-- The bytes of the escapes `%hh` at a position. -/
def readPercents : Nat → Cursor → Except Failure (List Nat × Cursor)
  | 0, p => .ok ([], p)
  | fuel + 1, p =>
    if p.sees '%' then
      let digits := p.next.rest.take 2
      if digits.length == 2 && digits.all Text.isHexDigit then do
        let (more, p) ← readPercents fuel (p.advance 3)
        .ok (Text.hexValue digits :: more, p)
      else .error .malformed
    else .ok ([], p)

/-- The text that well-formed bytes write; only ASCII is kept apart, since no known tag has any
other character. -/
def ofBytes (bytes : List Nat) : Text :=
  bytes.map fun b => if b < 0x80 then Char.ofNat b else Char.ofNat 0xfffd

/-- The text of a tag; it is empty only if no tag character stands here. -/
def readTagText : Nat → Cursor → Except Failure (Text × Cursor)
  | 0, p => .ok ([], p)
  | fuel + 1, p =>
    let (run, p) := p.span isTagChar
    if p.sees '%' then do
      let (bytes, p) ← readPercents (p.rest.length + 1) p
      if isUtf8 bytes then do
        let (more, p) ← readTagText fuel p
        .ok (run ++ ofBytes bytes ++ more, p)
      else .error .malformed
    else .ok (run, p)

/-- The text of a tag, which must not be empty. -/
def readUri (p : Cursor) : Except Failure (Text × Cursor) := do
  let (t, q) ← readTagText (p.rest.length + 1) p
  if t.isEmpty then .error .malformed else .ok (t, q)

/-- A handle between exclamation marks. -/
def readHandle (p : Cursor) : Except Failure (Text × Cursor) :=
  let (name, q) := p.next.span isNameChar
  if q.sees '!' then .ok ('!' :: (name ++ ['!']), q.next) else .error .malformed

/-- A tag at its exclamation mark. -/
def readTag (p : Cursor) : Except Failure (Token × Cursor) := do
  let (tag, p) ← (
    if p.next.sees '<' then do
      let (t, q) ← readUri (p.advance 2)
      if q.sees '>' then .ok (Token.tag none t, q.next) else .error .malformed
    else if p.spacingAt 1 then .ok (Token.tag none ['!'], p.next)
    else
      let word := p.next.rest.takeWhile fun c => !(c == ' ' || isBreak c)
      if '!' ∈ word then do
        let (handle, q) ← readHandle p
        let (t, q) ← readUri q
        .ok (Token.tag (some handle) t, q)
      else do
        let (t, q) ← readUri p.next
        .ok (Token.tag (some ['!']) t, q) : Except Failure (Token × Cursor))
  if p.atWordEnd then .ok (tag, p) else .error .malformed

/-! ### Directives -/

/-- The number at a position. -/
def readNumber (p : Cursor) : Except Failure (Nat × Cursor) :=
  let (digits, p) := p.span Text.isAsciiDigit
  if (Text.integerFault? 10 digits).isSome then .error .malformed
  else .ok (Text.digitsValue digits, p)

/-- The version behind the name of its directive: two numbers with a point between them. -/
def readVersion (p : Cursor) : Except Failure (Directive × Cursor) := do
  let (major, p) ← readNumber p.skipSpaces
  if !p.sees '.' then .error .malformed
  else do
    let (_, p) ← readNumber p.next
    if p.atWordEnd then .ok (.version major, p) else .error .malformed

/-- The handle and its text behind the name of their directive. -/
def readHandleText (p : Cursor) : Except Failure (Directive × Cursor) := do
  let p := p.skipSpaces
  let (name, p) ← (
    if !p.sees '!' then .error .malformed
    else if p.next.sees ' ' then .ok (['!'], p.next)
    else readHandle p : Except Failure (Text × Cursor))
  if !p.sees ' ' then .error .malformed
  else do
    let (text, p) ← readUri p.skipSpaces
    if p.atWordEnd then .ok (.handle name text, p) else .error .malformed

/-- A directive at its percent sign, and the position behind its line. -/
def readDirective (p : Cursor) : Except Failure (Directive × Cursor) := do
  let (name, p) := p.next.span isNameChar
  if name.isEmpty || !p.atWordEnd then .error .malformed
  else do
    let (d, p) ← (
      if name == "YAML".toList then readVersion p
      else if name == "TAG".toList then readHandleText p
      else .ok (.other, (p.span fun c => !isBreak c).2) : Except Failure (Directive × Cursor))
    let p := p.skipSpaces.skipComment
    if p.atLineEnd then .ok (d, p.skipBreak) else .error .malformed

/-! ### The scanner -/

/-- The place of a token that may be a key. -/
structure PossibleKey where
  /-- The nesting of brackets at its place. -/
  level : Nat
  /-- Its number among all tokens. -/
  number : Nat
  /-- Whether it must be a key, because it stands where the current mapping has its keys. -/
  required : Bool
  /-- The index of its first character. -/
  index : Nat
  /-- Its line. -/
  line : Nat
  /-- Its column. -/
  column : Nat

/-- The state of the scanner. -/
structure Scanner where
  /-- The position. -/
  here : Cursor
  /-- The released tokens, the latest first. -/
  released : List Token
  /-- How many tokens have been released. -/
  count : Nat
  /-- The tokens held back. -/
  queue : List Token
  /-- How many brackets are open. -/
  flow : Nat
  /-- The column of the current collection. -/
  indent : Int
  /-- The columns of the collections around it. -/
  outer : List Int
  /-- Whether a key may start here. -/
  allowKey : Bool
  /-- The tokens that may be keys. -/
  keys : List PossibleKey
  /-- Whether the text has been read to its end. -/
  done : Bool

namespace Scanner

/-- The scanner in front of a text. -/
def start (t : Text) : Scanner :=
  ⟨Cursor.atStart t, [], 0, [], 0, -1, [], true, [], false⟩

/-- The scanner with more tokens behind those held back. -/
def push (s : Scanner) (ts : List Token) : Scanner :=
  { s with queue := s.queue ++ ts }

/-- The scanner at another position. -/
def moveTo (s : Scanner) (p : Cursor) : Scanner :=
  { s with here := p }

/-- The scanner that allows or forbids a key at its position. -/
def allow (s : Scanner) (b : Bool) : Scanner :=
  { s with allowKey := b }

/-- Forgets the tokens that can no longer be keys: a key stands on one line and has at most 1024
characters. -/
def dropStale (s : Scanner) : Except Failure Scanner :=
  let stale (k : PossibleKey) : Bool := k.line != s.here.line || 1024 < s.here.index - k.index
  if s.keys.any fun k => stale k && k.required then .error .malformed
  else .ok { s with keys := s.keys.filter fun k => !stale k }

/-- Forgets the possible key inside the current brackets. -/
def dropKey (s : Scanner) : Except Failure Scanner :=
  if s.keys.any fun k => k.level == s.flow && k.required then .error .malformed
  else .ok { s with keys := s.keys.filter fun k => k.level != s.flow }

/-- Notes that the next token may be a key. -/
def saveKey (s : Scanner) : Except Failure Scanner :=
  if s.allowKey then do
    let s ← s.dropKey
    let required := s.flow == 0 && s.indent == s.here.column
    let key : PossibleKey :=
      ⟨s.flow, s.count + s.queue.length, required, s.here.index, s.here.line, s.here.column⟩
    .ok { s with keys := key :: s.keys }
  else .ok s

/-- The columns of the open collections down to one that is not right of `column`, and how many
were left. -/
def unwound (column : Int) (indent : Int) : List Int → Int × List Int × Nat
  | [] => if column < indent then (-1, [], 1) else (indent, [], 0)
  | i :: r =>
    if column < indent then
      let (indent, outer, n) := unwound column i r
      (indent, outer, n + 1)
    else (indent, i :: r, 0)

/-- Closes the collections that are indented more than `column`. -/
def unwind (s : Scanner) (column : Int) : Scanner :=
  if s.flow != 0 then s
  else
    let (indent, outer, n) := unwound column s.indent s.outer
    { s with
      indent := indent
      outer := outer
      queue := s.queue ++ List.replicate n .blockEnd }

/-- Opens a collection at a column right of the current one; answers whether it did. -/
def deepen (s : Scanner) (column : Nat) : Bool × Scanner :=
  if s.indent < column then (true, { s with indent := column, outer := s.indent :: s.outer })
  else (false, s)

/-- The position of the next token. Behind a line break outside brackets a key may start. -/
def skipBlanks : Nat → Scanner → Scanner
  | 0, s => s
  | fuel + 1, s =>
    let p := s.here.skipSpaces.skipComment
    match p.lineBreak? with
    | none => s.moveTo p
    | some (_, p) => skipBlanks fuel ((s.moveTo p).allow (s.allowKey || s.flow == 0))

/-- A token that opens brackets. -/
def openFlow (s : Scanner) (t : Token) : Except Failure Scanner := do
  let s ← s.saveKey
  .ok (({ s with flow := s.flow + 1 }.allow true |>.moveTo s.here.next).push [t])

/-- A token that closes brackets. -/
def closeFlow (s : Scanner) (t : Token) : Except Failure Scanner := do
  let s ← s.dropKey
  if s.flow == 0 then .error .malformed
  else .ok (({ s with flow := s.flow - 1 }.allow false |>.moveTo s.here.next).push [t])

/-- A comma. -/
def flowEntry (s : Scanner) : Except Failure Scanner := do
  let s ← (s.allow true).dropKey
  .ok ((s.moveTo s.here.next).push [.flowEntry])

/-- A dash in front of an entry. -/
def blockEntry (s : Scanner) : Except Failure Scanner := do
  let s ← (
    if s.flow == 0 then
      if s.allowKey then
        let (opened, s) := s.deepen s.here.column
        .ok (if opened then s.push [.blockSequence] else s)
      else .error .malformed
    else .ok s : Except Failure Scanner)
  let s ← (s.allow true).dropKey
  .ok ((s.moveTo s.here.next).push [.blockEntry])

/-- A question mark in front of a key. -/
def complexKey (s : Scanner) : Except Failure Scanner := do
  let s ← (
    if s.flow == 0 then
      if s.allowKey then
        let (opened, s) := s.deepen s.here.column
        .ok (if opened then s.push [.blockMapping] else s)
      else .error .malformed
    else .ok s : Except Failure Scanner)
  let s ← (s.allow (s.flow == 0)).dropKey
  .ok ((s.moveTo s.here.next).push [.key])

/-- A list with more elements at a place. -/
def insertAt {α : Type} (xs : List α) (n : Nat) (more : List α) : List α :=
  xs.take n ++ more ++ xs.drop n

/-- A colon in front of a value. The possible key inside the current brackets becomes a key. -/
def valueMark (s : Scanner) : Except Failure Scanner := do
  let s ← (
    match s.keys.find? fun k => k.level == s.flow with
    | some k =>
      let s := { s with keys := s.keys.filter fun k => k.level != s.flow }
      let place := k.number - s.count
      let (opened, s) := if s.flow == 0 then s.deepen k.column else (false, s)
      let new := if opened then [Token.blockMapping, .key] else [.key]
      .ok ({ s with queue := insertAt s.queue place new }.allow false)
    | none =>
      if s.flow == 0 then
        if s.allowKey then
          let (opened, s) := s.deepen s.here.column
          let s := if opened then s.push [.blockMapping] else s
          (s.allow true).dropKey
        else .error .malformed
      else (s.allow false).dropKey : Except Failure Scanner)
  .ok ((s.moveTo s.here.next).push [.value])

/-- A token that may be a key, read by `read`. -/
def keyLike (s : Scanner) (read : Cursor → Except Failure (Token × Cursor)) :
    Except Failure Scanner := do
  let s ← s.saveKey
  let (t, p) ← read s.here
  .ok ((s.allow false |>.moveTo p).push [t])

/-- A block scalar. -/
def blockScalar (s : Scanner) (folded : Bool) : Except Failure Scanner := do
  let s ← (s.allow true).dropKey
  let (t, p) ← readBlock folded s.indent s.here.next
  .ok ((s.moveTo p).push [.scalar t false])

/-- A plain scalar. -/
def plainScalar (s : Scanner) : Except Failure Scanner := do
  let s ← s.saveKey
  let (t, ended, p) := readPlain (s.flow != 0) (s.indent + 1) (s.here.rest.length + 1) s.here
  .ok ((s.allow ended |>.moveTo p).push [.scalar t true])

/-- Whether a plain scalar may start with `c` in front of `r`. -/
def startsPlain (s : Scanner) (c : Char) : Bool :=
  !(isSpacing c || "-?:,[]\x7b\x7d#&*!|>'\"%@".toList.contains c || c.toNat == 0x60) ||
    (!s.here.spacingAt 1 && (c == '-' || (s.flow == 0 && (c == '?' || c == ':'))))

/-- The end of the text. -/
def finish (s : Scanner) : Except Failure Scanner := do
  let s ← (s.unwind (-1)).dropKey
  .ok ({ s with keys := [], done := true }.allow false |>.push [.streamEnd])

/-- A line that ends or starts a document. -/
def separator (s : Scanner) (t : Token) : Except Failure Scanner := do
  let s ← (s.unwind (-1)).dropKey
  .ok ((s.allow false |>.moveTo (s.here.advance 3)).push [t])

/-- A line with a directive. -/
def directive (s : Scanner) : Except Failure Scanner := do
  let s ← (s.unwind (-1)).dropKey
  let (d, p) ← readDirective s.here
  .ok ((s.allow false |>.moveTo p).push [.directive d])

/-- Reads the next token. -/
def fetch (s : Scanner) : Except Failure Scanner := do
  let s := skipBlanks (s.here.rest.length + 1) s
  let s ← s.dropStale
  let s := s.unwind s.here.column
  let p := s.here
  match p.peek with
  | none => s.finish
  | some c =>
    if c == '%' && p.column == 0 then s.directive
    else if p.column == 0 && p.seesTriple '-' then s.separator .documentStart
    else if p.column == 0 && p.seesTriple '.' then s.separator .documentEnd
    else if c == '[' then s.openFlow .flowSequence
    else if c == '{' then s.openFlow .flowMapping
    else if c == ']' then s.closeFlow .flowSequenceEnd
    else if c == '}' then s.closeFlow .flowMappingEnd
    else if c == ',' then s.flowEntry
    else if c == '-' && p.spacingAt 1 then s.blockEntry
    else if c == '?' && (s.flow != 0 || p.spacingAt 1) then s.complexKey
    else if c == ':' && (s.flow != 0 || p.spacingAt 1) then s.valueMark
    else if c == '*' then s.keyLike fun p => (readName p).map fun r => (.alias r.1, r.2)
    else if c == '&' then s.keyLike fun p => (readName p).map fun r => (.anchor r.1, r.2)
    else if c == '!' then s.keyLike readTag
    else if c == '|' && s.flow == 0 then s.blockScalar false
    else if c == '>' && s.flow == 0 then s.blockScalar true
    else if c == '\'' || c == '"' then
      s.keyLike fun p => (readQuoted c p).map fun r => (.scalar r.1 false, r.2)
    else if s.startsPlain c then s.plainScalar
    else .error .malformed

/-- Releases the tokens that can no longer become keys. -/
def release (s : Scanner) : Scanner :=
  let held := match (s.keys.map fun k => k.number - s.count).min? with
    | some n => n
    | none => s.queue.length
  { s with
    released := (s.queue.take held).reverse ++ s.released
    count := s.count + min held s.queue.length
    queue := s.queue.drop held }

/-- Scans to the end of the text: the released tokens, and the failure that stopped the scan. -/
def run : Nat → Scanner → List Token × Option Failure
  | 0, s => (s.released.reverse, some .malformed)
  | fuel + 1, s =>
    match s.fetch with
    | .error e => (s.released.reverse, some e)
    | .ok s =>
      if s.done then ((s.queue.reverse ++ s.released).reverse, none)
      else
        match s.dropStale with
        | .error e => (s.released.reverse, some e)
        | .ok s => run fuel s.release

end Scanner

/-- The tokens of a text, and the failure that stopped the scan. Every token but the last takes
at least one character. -/
def scan (t : Text) : List Token × Option Failure :=
  if t.all isPrintable then
    let body := if t.head? == some byteOrderMark then (Cursor.atStart t).next else Cursor.atStart t
    ((Scanner.start t).moveTo body).run (t.length + 2)
  else ([], some .malformed)

end Markdown.Yaml
