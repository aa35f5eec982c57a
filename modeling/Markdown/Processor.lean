import Markdown.Render

/-!
# Processors

A processor is bound to a configuration. It converts a text in one go, or it splits the text first and
renders the blocks later. Splitting happens in a scope with the configuration of the processor.
Rendering opens no scope: quotes without blocks are split by what is active around it.
-/

namespace Markdown

/-- A configuration, with the highlighters for code. -/
structure Processor where
  /-- The configuration. -/
  config : Config
  /-- The highlighters. -/
  registry : Highlight.Registry

namespace Processor

/-- Converts a value, in a scope of its own. -/
def convert (p : Processor) (s : Scope) (v : Json) : Report Text × Scope :=
  s.within p.config fun inner => ((renderMarkdown inner.active p.registry .empty v).1, inner)

/-- The blocks of a value with its definitions, split in a scope of its own. -/
def parse (p : Processor) (s : Scope) (v : Json) : (Report (List Block) × References) × Scope :=
  s.within p.config fun inner => (Document.tokenizeValue inner.active v .empty, inner)

/-- The HTML of blocks with their definitions. -/
def render (p : Processor) (s : Scope) (bs : List Block) (definitions : References) : Report Text :=
  let c : Config := { p.config with structuredData := s.active.structuredData }
  (c.rendering p.registry definitions).render bs

end Processor

end Markdown
