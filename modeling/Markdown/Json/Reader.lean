import Markdown.Json.Token

/-!
# Reading JSON

`Json.read?` reads a text that holds one JSON value. The reader takes one token at a time; its
state is what may follow and the stack of the open containers.
-/

namespace Markdown.Json

/-- A container that has not been closed, with what it holds so far, the latest first. -/
inductive Frame where
  /-- An open array. -/
  | array (done : List Json)
  /-- An open object whose last key waits for its value. -/
  | object (done : List (Text × Json)) (key : Text)

/-- What the reader expects. -/
inductive Progress where
  /-- A value. -/
  | value (stack : List Frame)
  /-- A value or the end of the array just opened. -/
  | firstItem (stack : List Frame)
  /-- A key or the end of the object just opened. -/
  | firstKey (stack : List Frame)
  /-- A key. -/
  | key (done : List (Text × Json)) (stack : List Frame)
  /-- A colon behind a key. -/
  | colon (done : List (Text × Json)) (key : Text) (stack : List Frame)
  /-- What follows a complete value. -/
  | after (v : Json) (stack : List Frame)

/-- A token where a value may start. -/
def startValue (stack : List Frame) : Token → Option Progress
  | .mark '[' => some (.firstItem stack)
  | .mark '{' => some (.firstKey stack)
  | .mark _ => none
  | .string s => some (.after (.string s) stack)
  | .scalar v => some (.after v stack)

/-- A token behind a complete value. -/
def continueWith (v : Json) : List Frame → Token → Option Progress
  | .array done :: stack, .mark ',' => some (.value (.array (v :: done) :: stack))
  | .array done :: stack, .mark ']' => some (.after (.array (v :: done).reverse) stack)
  | .object done key :: stack, .mark ',' => some (.key ((key, v) :: done) stack)
  | .object done key :: stack, .mark '}' =>
    some (.after (ofMembers ((key, v) :: done).reverse) stack)
  | _, _ => none

/-- One step of the reader. -/
def advance : Progress → Token → Option Progress
  | .value stack, t => startValue stack t
  | .firstItem stack, .mark ']' => some (.after (.array []) stack)
  | .firstItem stack, t => startValue (.array [] :: stack) t
  | .firstKey stack, .mark '}' => some (.after (.object []) stack)
  | .firstKey stack, .string k => some (.colon [] k stack)
  | .key done stack, .string k => some (.colon done k stack)
  | .colon done k stack, .mark ':' => some (.value (.object done k :: stack))
  | .after v stack, t => continueWith v stack t
  | _, _ => none

/-- The value of a sequence of tokens. -/
def ofTokens? (ts : List Token) : Option Json :=
  match ts.foldlM advance (.value []) with
  | some (.after v []) => some v
  | _ => none

/-- The value that a text holds. -/
def read? (t : Text) : Option Json :=
  (lex t).bind ofTokens?

end Markdown.Json
