import Markdown.Block.Data
import Markdown.Block.Line

/-!
# Paragraphs

A paragraph takes its first line in any case, and then the lines up to a blank line or to the
start of another block. The blank line that ends it belongs to it.
-/

namespace Markdown.Paragraph

/-- Whether a block starts at a line that ends a paragraph. A bracket does so only if it opens
unfenced JSON, which is noted. -/
def interrupts (number : Nat) (line : Text) (rest : List Text) : Report Bool :=
  let t := Text.trimStart line
  if (Line.hashes? line).isSome || Line.isFence line then pure true
  else
    match t with
    | '>' :: _ => pure true
    | '{' :: _ => pure true
    | _ =>
      if (Line.marker? line).isSome || Line.isRule line then pure true
      else if t.head? == some '[' then
        match Data.recogniseJson number line rest with
        | some m => ⟨true, m.notes⟩
        | none => pure false
      else pure false

/-- The lines that continue a paragraph, and whether a blank line behind them is taken. -/
def continuation (number : Nat) : List Text → Report (List Text × Bool)
  | [] => pure ([], false)
  | line :: rest =>
    if Text.allBlank line then pure ([], true)
    else do
      if ← interrupts number line rest then pure ([], false)
      else
        let more ← continuation (number + 1) rest
        pure (line :: more.1, more.2)

/-- The paragraph that starts at a line. -/
def startingAt (number : Nat) (line : Text) (rest : List Text) : Match :=
  let more := continuation (number + 1) rest
  ⟨.paragraph (Text.unlines (line :: more.value.1)),
    more.value.1.length + (if more.value.2 then 1 else 0), more.notes⟩

end Markdown.Paragraph
