import Markdown.Fault
import Markdown.Html.Node
import Markdown.Html.StartTag
import Markdown.Text.Caseless
import Markdown.Text.Segment

/-!
# Tokens of HTML

A text of HTML is cut into tags, references, comments and runs of text; nothing is lost. The
scanner reads generously. A construct whose end is missing is text; from then on the end of the
input counts as final, and the first reference without an end makes text of everything left. The
body of a script or a style sheet is text up to its end tag.
-/

namespace Markdown.Html

/-- What a part of a text of HTML is. -/
inductive Token where
  /-- Text as written. -/
  | text (content : Text)
  /-- A reference to a character by its number. -/
  | number (digits : Text) (hexadecimal : Bool)
  /-- A reference to characters by name. -/
  | entity (name : Text)
  /-- A start tag. -/
  | opening (tag : StartTag)
  /-- An end tag; its name is in lower case. -/
  | closing (name : Text)
  /-- Something that is no text of the document, such as a comment. -/
  | aside (kind : TextKind) (content : Text)
  /-- Something that cannot be read. -/
  | refused (fault : Fault)
  /-- Something that stands for nothing. -/
  | skipped
  deriving DecidableEq, Repr

/-- How the scanner reads what comes next. -/
inductive Mode where
  /-- As content. `final` tells that the end of the input counts as final. -/
  | content (final : Bool)
  /-- As the body of the script or style sheet with a name. -/
  | body (name : Text) (final : Bool)
  /-- As text up to the end. -/
  | remainder
  deriving DecidableEq, Repr

namespace Token

/-- What stands behind an opening bracket. -/
inductive Reading where
  /-- Something that has so many characters behind the bracket. -/
  | complete (extra : Nat) (token : Token)
  /-- Something whose end is missing. -/
  | unfinished
  /-- Nothing special: the bracket is text. -/
  | bracket
  deriving DecidableEq, Repr

/-! ### Ends -/

/-- The length of a character behind blanks at the start of a text, the blanks included. -/
def behindBlanks? (c : Char) (t : Text) : Option Nat :=
  let blanks := (t.takeWhile Text.isBlank).length
  if (t.drop blanks).head? = some c then some (blanks + 1) else none

/-- The length of the end of a comment at the start of a text. -/
def commentEnd? (t : Text) : Option Nat :=
  match t with
  | '-' :: '-' :: r => (behindBlanks? '>' r).map (· + 2)
  | _ => none

/-- The length of the end of a short section at the start of a text. -/
def shortEnd? (t : Text) : Option Nat :=
  match t with
  | ']' :: r => (behindBlanks? '>' r).map (· + 1)
  | _ => none

/-- The length of the end of a section at the start of a text. -/
def sectionEnd? (t : Text) : Option Nat :=
  match t with
  | ']' :: r =>
    match behindBlanks? ']' r with
    | some n => (behindBlanks? '>' (r.drop n)).map (· + n + 1)
    | none => none
  | _ => none

/-- The length of the bracket that ends a tag at the start of a text. -/
def bracketEnd? (t : Text) : Option Nat :=
  if t.head? = some '>' then some 1 else none

/-- How many characters stand before the first end in a text, and how many the end has. -/
def firstEnd? (ending : Text → Option Nat) : Text → Option (Nat × Nat)
  | [] => none
  | c :: r =>
    match ending (c :: r) with
    | some n => some (0, n)
    | none => (firstEnd? ending r).map fun p => (p.1 + 1, p.2)

/-- What stands before the first end in a text, whose beginning has `skip` more characters behind
the opening bracket. -/
def upTo (ending : Text → Option Nat) (skip : Nat) (token : Text → Token) (t : Text) : Reading :=
  match firstEnd? ending t with
  | some (n, m) => .complete (skip + n + m) (token (t.take n))
  | none => .unfinished

/-! ### Declarations -/

/-- A character inside the name of a section. -/
def isSectionChar (c : Char) : Bool :=
  Text.isAsciiLetter c || Text.isAsciiDigit c || c = '-' || c = '_' || c = '.'

/-- The names of sections with two brackets at their end. -/
def sectionNames : List Text :=
  ["temp".toList, "cdata".toList, "ignore".toList, "include".toList, "rcdata".toList]

/-- The names of sections with one bracket at their end. -/
def shortSectionNames : List Text :=
  ["if".toList, "else".toList, "endif".toList]

/-- What the content of a section is: literal text or a declaration. -/
def sectionToken (content : Text) : Token :=
  match Text.afterWord? "cdata[".toList content with
  | some literal => .aside .literal literal
  | none => .aside .declaration content

/-- A marked section, behind its two opening brackets and the mark between them. -/
def markedSection (t : Text) : Reading :=
  match t with
  | [] => .unfinished
  | c :: _ =>
    if Text.isAsciiLetter c then
      let name := t.takeWhile isSectionChar
      let blanks := (t.drop name.length).takeWhile Text.isBlank
      let kind := name.map Text.lowerAscii
      if (t.drop (name.length + blanks.length)).isEmpty then .unfinished
      else if sectionNames.contains kind then upTo sectionEnd? 2 sectionToken t
      else if shortSectionNames.contains kind then upTo shortEnd? 2 sectionToken t
      else .complete 1 (.refused (.unknownSection (name ++ blanks)))
    else .complete 1 (.refused (.unnamedSection (("<![".toList ++ t).take 20)))

/-- The length of the word that begins a document type, with the blank behind it. -/
def doctypeLength : Nat := 8

/-- A declaration or a comment, behind the opening bracket and its mark. -/
def declaration (t : Text) : Reading :=
  match t with
  | '-' :: '-' :: r => upTo commentEnd? 3 (.aside .comment) r
  | '[' :: r => markedSection r
  | t =>
    match Text.afterWord? "doctype".toList t with
    | some r =>
      upTo bracketEnd? doctypeLength
        (fun content => .aside .doctype (content.drop 1)) r
    | none => upTo bracketEnd? 1 (.aside .comment) t

/-! ### End tags -/

/-- A character inside the name of a well-formed end tag. -/
def isEndTagChar (c : Char) : Bool :=
  Text.isAsciiLetter c || Text.isAsciiDigit c || c = '-' || c = '.' || c = ':' || c = '_'

/-- The name in a well-formed end tag, behind the bracket and the slash. -/
def endTagName? (t : Text) : Option Text :=
  let t := t.dropWhile Text.isBlank
  let name := t.takeWhile isEndTagChar
  match name with
  | [] => none
  | c :: _ =>
    if Text.isAsciiLetter c && (behindBlanks? '>' (t.drop name.length)).isSome then some name
    else none

/-- An end tag, behind the bracket and the slash. It reaches to the next closing bracket; what
has no name is a comment. -/
def endTag (t : Text) : Reading :=
  upTo bracketEnd? 1
    (fun content =>
      match endTagName? t with
      | some name => .closing (Text.lower name)
      | none =>
        match content with
        | [] => .skipped
        | c :: _ =>
          if Text.isAsciiLetter c then
            .closing (Text.lower (content.takeWhile fun c => !StartTag.endsName c))
          else .aside .comment content) t

/-! ### Markup -/

/-- What stands behind an opening bracket. -/
def markup (r : Text) : Reading :=
  match r with
  | [] => .bracket
  | '/' :: t => endTag t
  | '?' :: t => upTo bracketEnd? 1 (.aside .instruction) t
  | '!' :: t => declaration t
  | c :: _ =>
    if Text.isAsciiLetter c then
      match StartTag.read r with
      | .complete n tag => .complete n (.opening tag)
      | .broken n => .complete n (.text ('<' :: r.take n))
      | .unfinished => .unfinished
    else .bracket

/-- How many characters behind an opening bracket are text if its markup has no end: up to the
next closing bracket, else before the next opening one, else none. -/
def unfinishedLength (r : Text) : Nat :=
  if '>' ∈ r then (r.takeWhile (· ≠ '>')).length + 1
  else if '<' ∈ r then (r.takeWhile (· ≠ '<')).length
  else 0

/-- The mode behind a token that has been read as content. -/
def modeAfter (final : Bool) : Token → Mode
  | .opening tag =>
    if !tag.closed && (tag.name = "script".toList || tag.name = "style".toList) then
      .body tag.name final
    else .content final
  | .refused _ => .remainder
  | _ => .content final

/-- The token that starts at an opening bracket. -/
def bracketStep (final : Bool) (r : Text) : Text.Cut Mode Token :=
  match markup r with
  | .complete n token => ⟨n, token, modeAfter final token⟩
  | .unfinished =>
    let n := unfinishedLength r
    ⟨n, .text ('<' :: r.take n), .content true⟩
  | .bracket => ⟨0, .text ['<'], .content final⟩

/-! ### References -/

/-- The digits of a numeric reference at the start of a text, with whether they are hexadecimal.
Something that is no hexadecimal digit has to follow them. -/
def referenceDigits? (t : Text) : Option (Text × Bool) :=
  let decimal := t.takeWhile Text.isAsciiDigit
  let ends (n : Nat) : Bool :=
    match t.drop n with
    | c :: _ => !Text.isHexDigit c
    | [] => false
  match t with
  | x :: r =>
    if x = 'x' || x = 'X' then
      let digits := r.takeWhile Text.isHexDigit
      if !digits.isEmpty && ends (digits.length + 1) then some (digits, true) else none
    else if !decimal.isEmpty && ends decimal.length then some (decimal, false)
    else none
  | [] => none

/-- A character inside the name of a reference. -/
def isReferenceChar (c : Char) : Bool :=
  Text.isAsciiLetter c || Text.isAsciiDigit c || c = '-' || c = '.'

/-- The name of a reference at the start of a text. Something that is no letter or digit has to
follow it; at the end of the input this is its own last hyphen or point. -/
def referenceName? (t : Text) : Option Text :=
  let name := t.takeWhile isReferenceChar
  let name :=
    if name.length = t.length then
      (name.reverse.dropWhile fun c => c ≠ '-' && c ≠ '.').drop 1 |>.reverse
    else name
  match name with
  | [] => none
  | c :: _ => if Text.isAsciiLetter c then some name else none

/-- The token that starts at an ampersand. -/
def ampersandStep (final : Bool) (r : Text) : Text.Cut Mode Token :=
  let semicolon (n : Nat) : Nat := if (r.drop n).head? = some ';' then n + 1 else n
  match r with
  | [] => ⟨0, .text ['&'], .content final⟩
  | '#' :: t =>
    match referenceDigits? t with
    | some (digits, hexadecimal) =>
      let n := digits.length + if hexadecimal then 2 else 1
      ⟨semicolon n, .number digits hexadecimal, .content final⟩
    | none =>
      if ';' ∈ t then ⟨1, .text "&#".toList, if final then .remainder else .content true⟩
      else ⟨r.length, .text ('&' :: r), .remainder⟩
  | c :: t =>
    if Text.isAsciiLetter c then
      match referenceName? r with
      | some name => ⟨semicolon name.length, .entity name, .content final⟩
      | none =>
        if t.isEmpty then ⟨0, .skipped, .remainder⟩
        else ⟨r.length, .text ('&' :: r), .remainder⟩
    else ⟨0, .text ['&'], .content final⟩

/-! ### Bodies of scripts and style sheets -/

/-- The name in an end tag for a name in any case at the start of a text, and the length of the
tag. -/
def bodyEnd? (name t : Text) : Option (Text × Nat) :=
  match t with
  | '<' :: '/' :: r =>
    let blanks := (r.takeWhile Text.isBlank).length
    match Text.afterWord? name (r.drop blanks) with
    | some rest =>
      (behindBlanks? '>' rest).map fun n =>
        ((r.drop blanks).take name.length, 2 + blanks + name.length + n)
    | none => none
  | _ => none

/-- The token that starts at a character of a body. A body without end stands for nothing; an end
tag with letters outside ASCII is part of the body. -/
def bodyStep (name : Text) (final : Bool) (c : Char) (r : Text) : Text.Cut Mode Token :=
  match bodyEnd? name (c :: r) with
  | some (written, n) =>
    if written.map Text.lowerAscii = name then ⟨n - 1, .closing name, .content final⟩
    else ⟨n - 1, .text (c :: r.take (n - 1)), .body name final⟩
  | none =>
    match firstEnd? (fun t => (bodyEnd? name t).map (·.2)) r with
    | some (n, _) => ⟨n, .text (c :: r.take n), .body name final⟩
    | none => ⟨r.length, .skipped, .remainder⟩

/-! ### All tokens -/

/-- The token that starts at a character. -/
def step (mode : Mode) (c : Char) (r : Text) : Text.Cut Mode Token :=
  match mode with
  | .remainder => ⟨r.length, .text (c :: r), .remainder⟩
  | .body name final => bodyStep name final c r
  | .content final =>
    if c = '<' then bracketStep final r
    else if c = '&' then ampersandStep final r
    else
      let run := r.takeWhile fun d => d ≠ '<' && d ≠ '&'
      ⟨run.length, .text (c :: run), .content final⟩

/-- The tokens of a text of HTML, each with the part of the text that it was read from. -/
def segments (t : Text) : List (Text.Segment Token) :=
  Text.segment step (.content false) t

/-- The tokens of a text of HTML. -/
def scan (t : Text) : List Token :=
  (segments t).map (·.label)

end Token

end Markdown.Html
