import Markdown.Decimal.Shortest
import Markdown.Json.Basic
import Markdown.Text.Quoted

/-!
# Pretty-printed JSON

`Json.pretty` writes a value with one item or member on each line, two spaces deeper than its
container. Only quotes, backslashes and control characters are escaped.
-/

namespace Markdown.Json

/-- A character inside a string. -/
def escape (c : Char) : Text :=
  match c with
  | '"' => ['\\', '"']
  | '\\' => ['\\', '\\']
  | '\n' => ['\\', 'n']
  | '\r' => ['\\', 'r']
  | '\t' => ['\\', 't']
  | '\x08' => ['\\', 'b']
  | '\x0c' => ['\\', 'f']
  | c => if c.toNat < 0x20 then '\\' :: 'u' :: Text.hexNumeral 4 c.toNat else [c]

/-- A string in quotes. -/
def quote (t : Text) : Text :=
  '"' :: (t.flatMap escape ++ ['"'])

/-- The start of a line at a nesting depth. -/
def newline (depth : Nat) : Text :=
  '\n' :: List.replicate (2 * depth) ' '

/-- The parts of a container, each on a line of its own. -/
def bracket (opening closing : Char) (depth : Nat) (parts : List Text) : Text :=
  if parts.isEmpty then [opening, closing]
  else
    opening :: (newline (depth + 1) ++ (',' :: newline (depth + 1)).intercalate parts ++
      newline depth ++ [closing])

mutual

/-- A value at a nesting depth. -/
def prettyAt (depth : Nat) : Json → Text
  | .null => "null".toList
  | .bool b => if b then "true".toList else "false".toList
  | .integer n => Text.ofInt n
  | .float x => x.toText
  | .string t => quote t
  | .array xs => bracket '[' ']' depth (prettyItems (depth + 1) xs)
  | .object ms => bracket '{' '}' depth (prettyMembers (depth + 1) ms)

/-- The items of an array. -/
def prettyItems (depth : Nat) : List Json → List Text
  | [] => []
  | v :: r => prettyAt depth v :: prettyItems depth r

/-- The members of an object. -/
def prettyMembers (depth : Nat) : List (Text × Json) → List Text
  | [] => []
  | (k, v) :: r => (quote k ++ ':' :: ' ' :: prettyAt depth v) :: prettyMembers depth r

end

/-- The pretty-printed form of a value. -/
def pretty (v : Json) : Text :=
  prettyAt 0 v

end Markdown.Json
