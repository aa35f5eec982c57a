import Markdown.Block.Line
import Markdown.Text.Lowercase

/-!
# Link references and footnotes

The definitions of a document that blocks refer to by an identifier. Identifiers of links are
compared in lower case, those of footnotes exactly. Footnotes are numbered in the order of their
definitions; a later definition of the same identifier takes the next number.
-/

namespace Markdown

/-- The target of a reference link. -/
structure LinkTarget where
  /-- The address. -/
  url : Text
  /-- The title, if there is one. -/
  title : Option Text
  deriving DecidableEq, Repr

/-- A footnote with its displayed number. -/
structure Footnote where
  /-- The identifier in references. -/
  id : Text
  /-- The Markdown text of the note. -/
  content : Text
  /-- The displayed number. -/
  index : Nat
  deriving DecidableEq, Repr

/-- The definitions of a document. -/
structure References where
  /-- The link targets under their lower-case identifiers. -/
  links : List (Text × LinkTarget)
  /-- The footnotes, each identifier once. -/
  notes : List (Text × Footnote)
  /-- The number that the next footnote gets. -/
  next : Nat
  deriving DecidableEq, Repr

namespace References

/-- No definitions. -/
def empty : References :=
  ⟨[], [], 1⟩

/-- The entries with one more: a known key keeps its place and takes the new value. -/
def put {β : Type} (entries : List (Text × β)) (key : Text) (v : β) : List (Text × β) :=
  match entries with
  | [] => [(key, v)]
  | e :: r => if e.1 == key then (key, v) :: r else e :: put r key v

/-- The value under a key. -/
def find? {β : Type} (entries : List (Text × β)) (key : Text) : Option β :=
  (entries.find? fun e => e.1 == key).map (·.2)

/-- Defines a link target. -/
def setLink (s : References) (id url : Text) (title : Option Text) : References :=
  { s with links := put s.links (Text.lower id) ⟨url, title⟩ }

/-- The target of a link, without regard to case. -/
def link? (s : References) (id : Text) : Option LinkTarget :=
  find? s.links (Text.lower id)

/-- Defines a footnote, which gets the next number. -/
def setFootnote (s : References) (id content : Text) : References :=
  { s with notes := put s.notes id ⟨id, content, s.next⟩, next := s.next + 1 }

/-- The footnote with exactly this identifier. -/
def footnote? (s : References) (id : Text) : Option Footnote :=
  find? s.notes id

/-- Whether a footnote has been defined. -/
def hasFootnotes (s : References) : Bool :=
  !s.notes.isEmpty

/-- The footnotes in the order of their numbers. -/
def sortedFootnotes (s : References) : List Footnote :=
  (s.notes.map (·.2)).mergeSort fun a b => a.index ≤ b.index

/-! ### Definition lines -/

/-- What a line defines. -/
inductive DefinitionLine where
  /-- A link target. -/
  | link (id url : Text) (title : Option Text)
  /-- A footnote. -/
  | footnote (id content : Text)
  deriving DecidableEq, Repr

/-- The identifier in brackets at the start of a text, whose opening bracket has been read, and
what follows the colon behind the closing bracket. -/
def bracketed? (t : Text) : Option (Text × Text) :=
  match Text.cutAt? ']' t with
  | some (id, ':' :: rest) => if id.isEmpty then none else some (id, rest)
  | _ => none

/-- A footnote definition `[^id]: content`. -/
def footnoteLine? (line : Text) : Option DefinitionLine :=
  match Text.trimStart line with
  | '[' :: '^' :: r => (bracketed? r).map fun p => .footnote p.1 (Text.trim p.2)
  | _ => none

/-- A character of an address in a definition. -/
def isUrlChar (c : Char) : Bool :=
  !Text.isBlank c && c != '>'

/-- The address at the start of a text and what follows it. Angle brackets around it are
optional; a bracket with nothing behind it is itself the address. -/
def address? (t : Text) : Option (Text × Text) :=
  let bare := match t with
    | '<' :: r => if (r.takeWhile isUrlChar).isEmpty then t else r
    | _ => t
  let url := bare.takeWhile isUrlChar
  if url.isEmpty then none
  else
    match bare.drop url.length with
    | '>' :: rest => some (url, rest)
    | rest => some (url, rest)

/-- The title that fills the rest of a line behind at least one blank, between double quotes or
apostrophes. -/
def titleToEnd? (t : Text) : Option Text :=
  match t with
  | c :: r =>
    if Text.isBlank c then
      match Text.trimStart r with
      | q :: body =>
        if q == '"' || q == '\'' then
          match Text.cutAt? q body with
          | some (title, rest) => if Text.allBlank rest then some title else none
          | none => none
        else none
      | [] => none
    else none
  | [] => none

/-- A link definition `[id]: url`, with an optional title. -/
def linkLine? (line : Text) : Option DefinitionLine :=
  match Text.trimStart line with
  | '[' :: c :: r =>
    if c == '^' || c == ']' then none
    else
      match bracketed? (c :: r) with
      | none => none
      | some (id, rest) =>
        match address? (Text.trimStart rest) with
        | none => none
        | some (url, rest) =>
          match titleToEnd? rest with
          | some title => some (.link id url (some title))
          | none => if Text.allBlank rest then some (.link id url none) else none
  | _ => none

/-- What a line defines, if it is a definition. -/
def definitionLine? (line : Text) : Option DefinitionLine :=
  match footnoteLine? line with
  | some d => some d
  | none => linkLine? line

/-- The definitions with one more. -/
def define (s : References) : DefinitionLine → References
  | .link id url title => s.setLink id url title
  | .footnote id content => s.setFootnote id content

/-- The lines that define nothing, and the definitions of the others. Inside fences every line
is kept. -/
def extractLines (s : References) (fenced : Bool) : List Text → List Text × References
  | [] => ([], s)
  | line :: r =>
    if Line.isFence line then
      let rest := extractLines s (!fenced) r
      (line :: rest.1, rest.2)
    else if fenced then
      let rest := extractLines s fenced r
      (line :: rest.1, rest.2)
    else
      match definitionLine? line with
      | some d => extractLines (s.define d) fenced r
      | none =>
        let rest := extractLines s fenced r
        (line :: rest.1, rest.2)

/-- The text without its definition lines, and the definitions. -/
def extract (s : References) (t : Text) : Text × References :=
  let r := extractLines s false (Text.lines t)
  (Text.unlines r.1, r.2)

end References

end Markdown
