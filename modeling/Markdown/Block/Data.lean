import Markdown.Block.Basic
import Markdown.Json.Reader
import Markdown.Yaml.Meaning

/-!
# Data without a fence

JSON objects and arrays, and YAML mappings and sequences, that stand in a document without a
fence. The shape of the lines decides how far a candidate reaches; then a reader decides whether
it is one.
-/

namespace Markdown.Data

/-! ### JSON -/

/-- The state of the bracket count inside a line. -/
structure Brackets where
  /-- How many brackets are open. -/
  depth : Int
  /-- Whether a string is open. -/
  inString : Bool
  /-- Whether a backslash has just been read in a string. -/
  escaped : Bool

/-- The count behind one more character. Brackets inside strings do not count. -/
def Brackets.step (b : Brackets) (c : Char) : Brackets :=
  if b.inString then
    if b.escaped then { b with escaped := false }
    else if c == '\\' then { b with escaped := true }
    else if c == '"' then { b with inString := false }
    else b
  else if c == '"' then { b with inString := true }
  else if c == '{' || c == '[' then { b with depth := b.depth + 1 }
  else if c == '}' || c == ']' then { b with depth := b.depth - 1 }
  else b

/-- The count behind a line, with the depth and the open string before it. -/
def afterLine (depth : Int) (inString : Bool) (line : Text) : Brackets :=
  line.foldl Brackets.step ⟨depth, inString, false⟩

/-- How many lines it takes until all brackets are closed. A blank line inside brackets and the
end of the lines give no answer. -/
def balancedLines (depth : Int) (inString : Bool) : List Text → Option Nat
  | [] => none
  | line :: r =>
    if Text.allBlank line && 0 < depth then none
    else
      let b := afterLine depth inString line
      if b.depth ≤ 0 then some 1 else (balancedLines b.depth b.inString r).map (· + 1)

/-- A JSON object or array. -/
def recogniseJson : Recogniser := fun number line rest =>
  match Text.trimStart line with
  | c :: _ =>
    if c == '{' || c == '[' then
      match balancedLines 0 false (line :: rest) with
      | none => none
      | some n =>
        let content := Text.unlines (line :: rest.take (n - 1))
        match Json.read? content with
        | none => none
        | some _ =>
          some ⟨.code "json".toList content true, n - 1, [.logged (.detected .json number n)]⟩
    else none
  | [] => none

/-! ### YAML -/

/-- Whether a blank and one more character other than a line feed follow, with nothing but blanks
between them. -/
def hasValue (t : Text) : Bool :=
  match t with
  | c :: r => Text.isBlank c && (!(Text.allBlank r) || r.any (· != '\n'))
  | [] => false

/-- Whether a line begins with a key of word characters and blanks, a colon, and a value. A dash
may stand in front of the key. -/
def isYamlStart (line : Text) : Bool :=
  let t := match line with
    | '-' :: r => r
    | t => t
  match Text.trimStart t with
  | c :: r =>
    Text.isWord c &&
      (match r.dropWhile fun c => Text.isWord c || Text.isBlank c with
        | ':' :: tail => hasValue tail
        | _ => false)
  | [] => false

/-- A YAML mapping or sequence of at least two lines. -/
def recogniseYaml [Yaml.Reader] : Recogniser := fun number line rest =>
  if isYamlStart line then
    let more := rest.takeWhile fun l => !Text.allBlank l
    if more.isEmpty then none
    else
      let content := Text.unlines (line :: more)
      let found (notes : List Note) : Match :=
        ⟨.code "yaml".toList content true, more.length, notes⟩
      match Yaml.Reader.load content with
      | .collection => some (found [.logged (.detected .yaml number (more.length + 1))])
      | .broken f => some (found [.failed (.yaml f)])
      | _ => none
  else none

end Markdown.Data
