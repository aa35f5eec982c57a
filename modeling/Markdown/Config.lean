/-!
# Configuration

The switches of a conversion, and the scopes in which a configuration is active.
-/

namespace Markdown

/-- The switches of a conversion. -/
structure Config where
  /-- The text of a document is escaped before inline rules apply. -/
  sanitize : Bool := true
  /-- JSON and YAML without a fence become code blocks. -/
  structuredData : Bool := true
  /-- The content of code blocks is highlighted. -/
  highlightCode : Bool := false
  /-- Hexadecimal colours in code are shown with a swatch. -/
  colorSwatches : Bool := false
  deriving DecidableEq, Repr

/-- The active configuration and those that are restored when the open scopes are left, the
innermost first. -/
structure Scope where
  /-- The active configuration. -/
  active : Config
  /-- What was active when each open scope was entered. -/
  saved : List Config
  deriving DecidableEq, Repr

namespace Scope

/-- The default configuration, with no scope open. -/
def initial : Scope :=
  ⟨{}, []⟩

/-- Makes a configuration active. -/
def set (s : Scope) (c : Config) : Scope :=
  { s with active := c }

/-- Makes the default configuration active. -/
def reset (s : Scope) : Scope :=
  s.set {}

/-- Enters a scope with a configuration of its own. -/
def enter (s : Scope) (c : Config) : Scope :=
  ⟨c, s.active :: s.saved⟩

/-- Leaves the innermost scope, if one is open: what was active on entry is active again. -/
def leave? (s : Scope) : Option Scope :=
  match s.saved with
  | [] => none
  | c :: r => some ⟨c, r⟩

/-- Runs a computation in a scope of its own, which is left whether or not it gives an answer. -/
def within {α : Type} (s : Scope) (c : Config) (f : Scope → α × Scope) : α × Scope :=
  ((f (s.enter c)).1, s)

end Scope

end Markdown
