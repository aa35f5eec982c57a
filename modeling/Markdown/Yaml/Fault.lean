import Markdown.Text.Quoted

/-!
# Faults of reading YAML

A text that is not YAML is malformed, and nothing more is said about it. At some texts a reader
cannot come to this answer: a scalar or a mapping does not fit the tag in front of it, or a number is
out of range.
-/

namespace Markdown.Yaml

/-- Why the reading of a text is broken off. -/
inductive Fault where
  /-- A scalar tagged as truth value is none; the word is in lower case. -/
  | unknownTruthValue (word : Text)
  /-- A scalar tagged as number is empty. -/
  | emptyNumber
  /-- A scalar tagged as timestamp is none. -/
  | unreadableTimestamp
  /-- A sexagesimal fraction has too many places. -/
  | sexagesimalOverflow
  /-- A mapping is tagged as timestamp. -/
  | timestampMapping
  /-- An escape in a quoted scalar has a number of more than 31 bits. -/
  | escapeOverflow
  /-- Anything else that stops a reader, with its message. The reader of this library has no such
  fault. -/
  | other (message : Text)
  deriving DecidableEq, Repr

/-- The message of a fault. -/
def Fault.message : Fault → Text
  | .unknownTruthValue word => Text.quoted word
  | .emptyNumber => "string index out of range".toList
  | .unreadableTimestamp => "'NoneType' object has no attribute 'groupdict'".toList
  | .sexagesimalOverflow => "int too large to convert to float".toList
  | .timestampMapping => "expected string or bytes-like object, got 'list'".toList
  | .escapeOverflow => "Python int too large to convert to C int".toList
  | .other message => message

end Markdown.Yaml
