import Markdown.Decimal.Binary
import Markdown.Text.Basic

/-!
# JSON values

Values of JSON. Whole numbers are kept exactly, other numbers as the nearest number of the 64-bit
binary format. An object keeps its members in the order of their first occurrence.
-/

namespace Markdown

/-- A JSON value. -/
inductive Json where
  /-- `null`. -/
  | null
  /-- `true` or `false`. -/
  | bool (value : Bool)
  /-- A number without fraction and exponent. -/
  | integer (value : Int)
  /-- Any other number. -/
  | float (value : Binary64)
  /-- A string. -/
  | string (value : Text)
  /-- An array. -/
  | array (items : List Json)
  /-- An object. -/
  | object (members : List (Text × Json))
  deriving Inhabited, Repr

namespace Json

/-- The kinds of values that messages tell apart. -/
inductive Kind where
  /-- `null`. -/
  | null
  /-- A truth value. -/
  | bool
  /-- A whole number. -/
  | integer
  /-- Another number. -/
  | float
  /-- A string. -/
  | string
  /-- An array. -/
  | array
  /-- An object. -/
  | object
  deriving DecidableEq, Repr

/-- The kind of a value. -/
def kind : Json → Kind
  | .null => .null
  | .bool _ => .bool
  | .integer _ => .integer
  | .float _ => .float
  | .string _ => .string
  | .array _ => .array
  | .object _ => .object

/-- The word for a kind in messages. -/
def Kind.name : Kind → Text
  | .null => "NoneType".toList
  | .bool => "bool".toList
  | .integer => "int".toList
  | .float => "float".toList
  | .string => "str".toList
  | .array => "list".toList
  | .object => "dict".toList

/-- A value that stands for "nothing given": `null`, `false`, zero, or an empty text or
container. -/
def isVoid : Json → Bool
  | .null => true
  | .bool b => !b
  | .integer n => n == 0
  | .float (.finite _ m _) => m == 0
  | .float _ => false
  | .string t => t.isEmpty
  | .array xs => xs.isEmpty
  | .object ms => ms.isEmpty

/-- The value of a member. -/
def get? (key : Text) : Json → Option Json
  | .object ms => (ms.find? fun m => m.1 == key).map (·.2)
  | _ => none

/-- The members with one more: a known key keeps its place and takes the new value. -/
def putMember (ms : List (Text × Json)) (key : Text) (v : Json) : List (Text × Json) :=
  match ms with
  | [] => [(key, v)]
  | m :: r => if m.1 == key then (key, v) :: r else m :: putMember r key v

/-- The object with the given members; of members with equal keys the last value counts. -/
def ofMembers (ms : List (Text × Json)) : Json :=
  .object (ms.foldl (fun acc m => putMember acc m.1 m.2) [])

end Json

end Markdown
