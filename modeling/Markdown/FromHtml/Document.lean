import Markdown.FromHtml.Block
import Markdown.Html.Tree

/-!
# Markdown from HTML

A text of HTML, or one element of it, becomes Markdown in normal form. A value that is neither is a
fault.
-/

namespace Markdown.FromHtml

open Html (Node Tag)

/-- What surrounds the nodes of a whole document. -/
def Surroundings.document : Surroundings :=
  ⟨false, false⟩

/-- The Markdown of some nodes, in normal form. -/
def ofNodes (hook : Option Hook) (s : Surroundings) (nodes : List Node) : Report Text :=
  normalize <$> blockNodes hook s nodes

/-- The Markdown of a text of HTML. -/
def ofHtml (hook : Option Hook) (t : Text) : Report Text := do
  ofNodes hook .document (← Html.parse t)

/-- The Markdown of a value, which must be a text of HTML. -/
def ofValue (hook : Option Hook) (v : Json) : Report Text :=
  match v with
  | .string t => ofHtml hook t
  | v => do
    Report.fail (.notMarkup v.kind)
    pure []

mutual

/-- The first element in a node that satisfies `p`: its children with what surrounds them. -/
def childrenOf? (p : Tag → Bool) (s : Surroundings) : Node → Option (Surroundings × List Node)
  | .text _ _ => none
  | .element tag children =>
    if p tag then some (s.inside tag, children)
    else childrenAmong? p (s.inside tag) children

/-- The first element in some nodes that satisfies `p`: its children with what surrounds them. -/
def childrenAmong? (p : Tag → Bool) (s : Surroundings) :
    List Node → Option (Surroundings × List Node)
  | [] => none
  | n :: r => (childrenOf? p s n).or (childrenAmong? p s r)

end

/-- The Markdown of the children of the first element with a name. Without such an element there
is nothing to convert. -/
def ofElement (hook : Option Hook) (name : Text) (t : Text) : Report Text := do
  match childrenAmong? (fun tag => tag.name == name) .document (← Html.parse t) with
  | some (s, children) => ofNodes hook s children
  | none => do
    Report.fail (.notMarkup .null)
    pure []

end Markdown.FromHtml
