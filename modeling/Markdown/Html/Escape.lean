import Markdown.Text.Basic

/-!
# Escaping for HTML

The five characters that have a meaning in HTML text and in quoted attribute values are written
as references. The apostrophe has the decimal form, which no reader takes for a colour.
-/

namespace Markdown.Html

/-- The written form of a character in HTML text. -/
def escapeChar (c : Char) : Text :=
  match c with
  | '&' => "&amp;".toList
  | '<' => "&lt;".toList
  | '>' => "&gt;".toList
  | '"' => "&quot;".toList
  | '\'' => "&#039;".toList
  | c => [c]

/-- The written form of a text in HTML. -/
def escape (t : Text) : Text :=
  t.flatMap escapeChar

@[simp] theorem escape_nil : escape [] = [] := rfl

@[simp] theorem escape_cons (c : Char) (r : Text) : escape (c :: r) = escapeChar c ++ escape r :=
  rfl

@[simp] theorem escape_append (s t : Text) : escape (s ++ t) = escape s ++ escape t := by
  simp [escape]

end Markdown.Html
