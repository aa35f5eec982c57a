import Markdown.Block.Basic
import Markdown.Block.Line

/-!
# Headings and thematic breaks

Headings marked by hashes, headings underlined by the next line, and thematic breaks.
-/

namespace Markdown.Heading

/-- A heading behind one to six hashes; without content it is none. -/
def recognise : Recogniser := fun _ line _ =>
  match Line.hashes? line with
  | none => none
  | some (n, rest) =>
    match Line.body? (Text.trimStart rest) with
    | none => none
    | some content =>
      let content := Text.trim content
      if content.isEmpty then none else some ⟨.heading n content, 0, []⟩

/-- The level that an underline gives: 1 for `=`, 2 for `-`. -/
def underlineLevel? (line : Text) : Option Int :=
  match line with
  | c :: r =>
    if (c == '=' || c == '-') && Text.allBlank (r.dropWhile (· == c)) then
      some (if c == '=' then 1 else 2)
    else none
  | [] => none

/-- A heading underlined by the next line. List entries and breaks are never such headings. -/
def recogniseUnderlined : Recogniser := fun _ line rest =>
  match rest with
  | [] => none
  | next :: _ =>
    if Text.allBlank line || (Line.marker? line).isSome || Line.isRule line then none
    else (underlineLevel? next).map fun level => ⟨.heading level (Text.trim line), 1, []⟩

/-- A thematic break. -/
def recogniseRule : Recogniser := fun _ line _ =>
  if Line.isRule line then some ⟨.rule, 0, []⟩ else none

end Markdown.Heading
