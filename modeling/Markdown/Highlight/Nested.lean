import Markdown.Highlight.Writer
import Markdown.Json.Pretty
import Markdown.Json.Reader

/-!
# JSON inside strings

A string that holds a JSON object or array is an object to its reader. It is shown by a toggle:
pretty-printed when expanded, as written when not. Long candidates are not read.
-/

namespace Markdown.Highlight.Nested

/-- The greatest length of a candidate. -/
def maxLength : Nat := 100000

/-- The object or array that a text holds. -/
def read? (t : Text) : Report (Option Markdown.Json) :=
  let trimmed := Text.trim t
  match trimmed with
  | [] => pure none
  | c :: _ =>
    if maxLength < trimmed.length then do
      Report.log (.oversizedCandidate trimmed.length)
      pure none
    else if c = '{' || c = '[' then
      match Markdown.Json.read? trimmed with
      | some (.array xs) => pure (some (.array xs))
      | some (.object ms) => pure (some (.object ms))
      | _ => pure none
    else pure none

/-- The pretty-printed form, with the lines behind the first shifted right. -/
def format (v : Markdown.Json) (column : Nat) : Text :=
  v.pretty.flatMap fun c => if c = '\n' then '\n' :: List.replicate column ' ' else [c]

/-- The identifier of a toggle at an offset. -/
def idAt (offset : Nat) : Text :=
  "nj-".toList ++ Text.ofNat offset

/-- The sign of an expanded toggle. -/
def expandedGlyph : Char := Char.ofNat 0x25bc

/-- The sign of a collapsed toggle. -/
def collapsedGlyph : Char := Char.ofNat 0x25b6

/-- The toggle of a nested value: either the written or the pretty-printed form, both in HTML. -/
def markup (id raw : Text) (expanded : Bool) (parsed : Text) : Text :=
  let glyph := if expanded then expandedGlyph else collapsedGlyph
  let body := if expanded then "<span class=\"nested-json-parsed\">".toList ++ parsed
    else "<span class=\"nested-json-raw\">".toList ++ raw
  "<span class=\"nested-json\" data-nested-json-id=\"".toList ++ id ++ "\">".toList ++
    "<span class=\"nested-json-toggle\" data-nested-json-toggle=\"".toList ++ id ++
    "\">".toList ++ glyph :: "</span>".toList ++ body ++ "</span></span>".toList

end Markdown.Highlight.Nested
