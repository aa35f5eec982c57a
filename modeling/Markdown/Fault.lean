import Markdown.Json.Basic
import Markdown.Yaml.Fault

/-!
# Faults

The causes for which a call gives no answer, and their messages. Malformed Markdown, HTML or code
is no fault by itself; a fault is a value of the wrong kind, a block or a highlighter that cannot
be used, or a number or tag that a reader refuses to interpret.
-/

namespace Markdown

/-- A value that is no block. It may be of any type; the renderer knows no more of it. -/
structure Foreign where
  /-- The name of its type. -/
  typeName : Text
  /-- What tells it apart from the other values of this type. -/
  identity : Nat
  deriving DecidableEq, Repr

/-- Why a call gives no answer. -/
inductive Fault where
  /-- A value that is no text was given as Markdown. -/
  | notMarkdown (kind : Json.Kind)
  /-- A value that is neither a text nor an element was given as HTML. -/
  | notMarkup (kind : Json.Kind)
  /-- A value that is no block was given to the renderer. The fault keeps the value. -/
  | foreignBlock (value : Foreign)
  /-- A value that cannot be called was registered as highlighter of a language. -/
  | notCallable (language : Text)
  /-- A whole number has too many digits. -/
  | longNumeral (digits : Nat)
  /-- A counter has grown to a number with too many digits. -/
  | longCounter
  /-- The reading of unfenced YAML is broken off. -/
  | yaml (fault : Yaml.Fault)
  /-- A marked section of HTML does not start with a name; its first characters are given. -/
  | unnamedSection (start : Text)
  /-- A marked section of HTML has an unknown name. -/
  | unknownSection (name : Text)
  /-- A column alignment of HTML is not one of the known words. -/
  | unknownAlignment (word : Text)
  deriving DecidableEq, Repr

namespace Fault

/-- How a refusal of a whole HTML text begins. -/
def rejection : Text :=
  ("The markup you provided was rejected by the parser. Trying a different parser or a " ++
    "different encoding may help.\n\nOriginal exception(s) from parser:\n AssertionError: ").toList

/-- The message of a fault. -/
def message : Fault → Text
  | .notMarkdown k => "Expected Markdown text, got ".toList ++ k.name
  | .notMarkup k => "Expected HTML string or bs4 Tag, got ".toList ++ k.name
  | .foreignBlock v => "Cannot render token of type ".toList ++ Text.quoted v.typeName
  | .notCallable language =>
    "Highlighter '".toList ++ language ++ "': highlighter must be callable".toList
  | .longNumeral n =>
    "Exceeds the limit (4300 digits) for integer string conversion: value has ".toList ++
      Text.ofNat n ++ " digits; use sys.set_int_max_str_digits() to increase the limit".toList
  | .longCounter =>
    ("Exceeds the limit (4300 digits) for integer string conversion; use " ++
      "sys.set_int_max_str_digits() to increase the limit").toList
  | .yaml f => f.message
  | .unnamedSection start => rejection ++ "expected name token at ".toList ++ Text.quoted start
  | .unknownSection name =>
    rejection ++ "unknown status keyword ".toList ++ Text.quoted name ++
      " in marked section".toList
  | .unknownAlignment word => Text.quoted word

end Fault

/-- Where a caller found something that it cannot use. -/
structure Location where
  /-- The file. -/
  file : Option Text
  /-- The line, counted from 1. -/
  line : Option Int
  /-- The column, counted from 1; it is shown only together with a line. -/
  column : Option Int

/-- The place in front of a message: file, line and column, each followed by a colon, without
the colons at the end. -/
def Location.header (l : Location) : Text :=
  let file := match l.file with
    | some f => if f.isEmpty then [] else f ++ [':']
    | none => []
  let place := match l.line with
    | none => []
    | some n =>
      Text.ofInt n ++ ':' :: match l.column with
        | none => []
        | some c => Text.ofInt c ++ [':']
  let whole := file ++ place
  if whole.isEmpty then [] else Text.trimEndBy (· = ':') whole ++ [' ']

/-- A message behind its place. -/
def Location.describe (l : Location) (message : Text) : Text :=
  l.header ++ message

end Markdown
