import Markdown.Highlight.Span
import Markdown.Text.Letters

/-!
# Style sheets

A scanner that knows in which part of a rule it is. Outside braces it reads selectors, inside them
properties, and behind the colon of a property values. Braces are counted, so that the end of a
rule inside an at-rule leads back to properties.
-/

namespace Markdown.Highlight.Css

/-- The part of a rule. -/
inductive Context where
  /-- Outside braces. -/
  | selector
  /-- At a property. -/
  | property
  /-- Behind the colon of a property. -/
  | value
  deriving DecidableEq, Repr

/-- The class of the words in a part. -/
def Context.wordClass : Context → SpanClass
  | .selector => .selector
  | .property => .property
  | .value => .value

/-- The state of the scanner. -/
structure State where
  /-- The part of the current rule. -/
  context : Context
  /-- How many braces are open. -/
  depth : Nat
  deriving DecidableEq, Repr

/-- The state at the start of a style sheet. -/
def State.initial : State :=
  ⟨.selector, 0⟩

/-- The state at the start of a declaration or of a rule. -/
def State.fresh (depth : Nat) : State :=
  ⟨if depth = 0 then .selector else .property, depth⟩

/-- The state behind a mark of punctuation. -/
def State.after (s : State) (c : Char) : State :=
  if c = '{' then ⟨.property, s.depth + 1⟩
  else if c = '}' then State.fresh (s.depth - 1)
  else if c = ':' then { s with context := .value }
  else if c = ';' then State.fresh s.depth
  else s

/-- A mark of punctuation. Outside properties a colon belongs to its word. -/
def isPunctuation (context : Context) (c : Char) : Bool :=
  "\x7b\x7d;,()".toList.contains c || (c = ':' && context = .property)

/-- Whether a character belongs to a word, the slash excepted. -/
def isWordChar (context : Context) (c : Char) : Bool :=
  !(Text.isBlank c || "\x7b\x7d;,()\"'/".toList.contains c || (c = ':' && context = .property))

/-- The length of the word at the start of a text. A slash belongs to it unless it opens a
comment. -/
def wordLength (context : Context) : Text → Nat
  | [] => 0
  | c :: r =>
    if isWordChar context c || (c = '/' && r.head? ≠ some '*') then wordLength context r + 1
    else 0

/-- A character of the name of an at-rule. -/
def isRuleChar (c : Char) : Bool :=
  Text.isWord c || c = '-'

/-- The span that starts at a character. -/
def step (s : State) (c : Char) (r : Text) : Text.Cut State (Option SpanClass) :=
  if Text.isBlank c then cut (runLength Text.isBlank r) none s
  else if c = '/' && r.head? = some '*' then
    cut (1 + lengthThrough "*/".toList (r.drop 1)) (some .comment) s
  else if c = '"' || c = '\'' then cut (quotedLength true false c r) (some .string) s
  else if c = '@' && runLength isRuleChar r ≠ 0 then
    cut (runLength isRuleChar r) (some .atRule) s
  else if isPunctuation s.context c then cut 0 (some .punctuation) (s.after c)
  else
    let n := wordLength s.context (c :: r)
    if n ≠ 0 then cut (n - 1) (some s.context.wordClass) s else cut 0 none s

/-- The spans of a style sheet. -/
def spans (code : Text) : List Span :=
  Text.segment step State.initial code

end Markdown.Highlight.Css
