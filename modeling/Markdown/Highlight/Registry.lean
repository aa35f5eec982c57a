import Markdown.Highlight.Bash
import Markdown.Highlight.Color
import Markdown.Highlight.Html
import Markdown.Highlight.Yaml
import Markdown.Text.Lowercase

/-!
# Languages and their highlighters

A table from languages to highlighters. The names of languages are compared in a normal form that
resolves aliases and ignores case. Code in a language without a highlighter is only escaped.
-/

namespace Markdown.Highlight

/-- A highlighter: given a predicate for nested JSON, it turns code into HTML. -/
abbrev Highlighter := Option (Text → Bool) → Text → Report Text

/-- Other names of languages. -/
def aliases : List (Text × Text) :=
  [("js".toList, "javascript".toList), ("ts".toList, "typescript".toList),
    ("py".toList, "python".toList), ("rb".toList, "ruby".toList), ("yml".toList, "yaml".toList),
    ("md".toList, "markdown".toList), ("sh".toList, "bash".toList),
    ("shell".toList, "bash".toList), ("htm".toList, "html".toList),
    ("xhtml".toList, "html".toList)]

/-- The name of text in no language. -/
def plainText : Text := "text".toList

/-- The normal form of a name: without blanks around it, in lower case, aliases resolved. A name
without characters is that of plain text. -/
def normalizeLanguage (language : Option Text) : Text :=
  match language with
  | none => plainText
  | some l =>
    let name := Text.lower (Text.trim l)
    let name := ((aliases.find? fun a => a.1 == name).map (·.2)).getD name
    if l.isEmpty || name.isEmpty then plainText else name

/-- A highlighter that has no use for the predicate. -/
def ofSpans (spans : Text → List Span) : Highlighter := fun _ code =>
  pure (spansHtml (spans code))

/-- The highlighters of languages, each under the normal form of its name. -/
abbrev Registry := List (Text × Highlighter)

namespace Registry

/-- The built-in highlighters. -/
def builtin : Registry :=
  [("json".toList, Json.highlight), ("yaml".toList, Yaml.highlight),
    ("javascript".toList, ofSpans (Script.spans [])),
    ("typescript".toList, ofSpans (Script.spans Script.typeKeywords)),
    ("bash".toList, ofSpans Bash.spans), ("css".toList, ofSpans Css.spans),
    ("html".toList, ofSpans Html.spans), ("vue".toList, ofSpans Html.spans)]

/-- The highlighter of a language. -/
def find? (r : Registry) (language : Option Text) : Option Highlighter :=
  let name := normalizeLanguage language
  (List.find? (fun e => e.1 == name) r).map (·.2)

/-- Whether a language has a highlighter. -/
def supports (r : Registry) (language : Option Text) : Bool :=
  (r.find? language).isSome

/-- The registry with a highlighter for a language, in place of an earlier one. -/
def insert (r : Registry) (language : Text) (h : Highlighter) : Registry :=
  (normalizeLanguage (some language), h) :: r

/-- Registers a highlighter; without one, the registry stays as it is and a fault is noted. -/
def register (r : Registry) (language : Text) (h : Option Highlighter) : Report Registry :=
  match h with
  | some h => pure (r.insert language h)
  | none => do
    Report.fail (.notCallable language)
    pure r

/-- The HTML of code in a language. Empty code has none. -/
def highlight (r : Registry) (language : Option Text) (expanded : Option (Text → Bool))
    (swatches : Bool) (code : Text) : Report Text :=
  if code.isEmpty then pure []
  else do
    let html ← match r.find? language with
      | some h => h expanded code
      | none => do
        Report.log (.noHighlighter language)
        pure (Html.escape code)
    pure (if swatches then decorateColors html else html)

end Registry

end Markdown.Highlight
