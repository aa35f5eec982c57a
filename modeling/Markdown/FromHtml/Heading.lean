import Markdown.Html.Node

/-!
# Headings of HTML

A heading element becomes a line behind hashes. Markup inside it is flattened to its text.
-/

namespace Markdown.FromHtml

open Html (Node Tag)

/-- The level of a heading element. -/
def headingLevel? (tag : Tag) : Option Nat :=
  match tag.name with
  | ['h', d] => if '1' ≤ d && d ≤ '6' then some (d.toNat - '0'.toNat) else none
  | _ => none

/-- The heading line of an element, with a blank line behind it. An element that is no heading and
a heading without visible text give nothing. -/
def heading (tag : Tag) (children : List Node) : Text :=
  match headingLevel? tag with
  | none => []
  | some level =>
    let t := Text.trim (tag.innerText children)
    if t.isEmpty then [] else List.replicate level '#' ++ ' ' :: t ++ ['\n', '\n']

end Markdown.FromHtml
