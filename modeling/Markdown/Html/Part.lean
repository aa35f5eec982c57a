import Markdown.Text.Segment

/-!
# Tags in HTML text

A text cut into its tags, from `<` to the next `>`, and the runs of text between them. A `<`
without `>` behind it starts no tag.
-/

namespace Markdown.Html

/-- Whether a segment is a tag or text. -/
inductive Part where
  /-- From `<` to the next `>`. -/
  | tag
  /-- Anything else. -/
  | text
  deriving DecidableEq, Repr

/-- The tag or the run of text that starts at a character. -/
def partStep (_ : Unit) (c : Char) (r : Text) : Text.Cut Unit Part :=
  if c = '<' && '>' ∈ r then ⟨(r.takeWhile (· ≠ '>')).length + 1, .tag, ()⟩
  else
    let run := (r.takeWhile (· ≠ '<')).length
    if '>' ∈ r.drop run then ⟨run, .text, ()⟩ else ⟨r.length, .text, ()⟩

/-- The tags and texts of an HTML text, in order. -/
def parts (t : Text) : List (Text.Segment Part) :=
  Text.segment partStep () t

/-- Changes the texts between the tags. -/
def mapTexts (f : Text → Text) (t : Text) : Text :=
  (parts t).flatMap fun p =>
    match p.label with
    | .tag => p.text
    | .text => f p.text

end Markdown.Html
