import Markdown.Block.Basic
import Markdown.Block.Data
import Markdown.Block.Fence
import Markdown.Block.Glossary
import Markdown.Block.Heading
import Markdown.Block.Line
import Markdown.Block.Listing
import Markdown.Block.Paragraph
import Markdown.Block.Row
import Markdown.Block.Table
import Markdown.Config
import Markdown.Decimal.Binary
import Markdown.Decimal.Shortest
import Markdown.Document
import Markdown.Fault
import Markdown.FromHtml.Block
import Markdown.FromHtml.Document
import Markdown.FromHtml.Heading
import Markdown.FromHtml.Inline
import Markdown.FromHtml.Listing
import Markdown.FromHtml.Mark
import Markdown.FromHtml.Table
import Markdown.Highlight.Bash
import Markdown.Highlight.Color
import Markdown.Highlight.Css
import Markdown.Highlight.Html
import Markdown.Highlight.Json
import Markdown.Highlight.Nested
import Markdown.Highlight.Registry
import Markdown.Highlight.Script
import Markdown.Highlight.Span
import Markdown.Highlight.Writer
import Markdown.Highlight.Yaml
import Markdown.Html.Entity
import Markdown.Html.Escape
import Markdown.Html.Node
import Markdown.Html.Part
import Markdown.Html.Reference
import Markdown.Html.StartTag
import Markdown.Html.Token
import Markdown.Html.Tree
import Markdown.Inline.Emphasis
import Markdown.Inline.Escape
import Markdown.Inline.Link
import Markdown.Inline.Span
import Markdown.Json.Basic
import Markdown.Json.Pretty
import Markdown.Json.Reader
import Markdown.Json.Token
import Markdown.Processor
import Markdown.Proofs.Ambient
import Markdown.Proofs.BlankLines
import Markdown.Proofs.BlockTrip
import Markdown.Proofs.Canonical
import Markdown.Proofs.CanonicalBlocks
import Markdown.Proofs.CanonicalListing
import Markdown.Proofs.CanonicalMarkdown
import Markdown.Proofs.CanonicalNodes
import Markdown.Proofs.Characters
import Markdown.Proofs.CodeContent
import Markdown.Proofs.CodeNodes
import Markdown.Proofs.CodeTrip
import Markdown.Proofs.ColoredTexts
import Markdown.Proofs.Columns
import Markdown.Proofs.Containment
import Markdown.Proofs.DefinitionForms
import Markdown.Proofs.Definitions
import Markdown.Proofs.Digits
import Markdown.Proofs.Embedded
import Markdown.Proofs.Extraction
import Markdown.Proofs.Faults
import Markdown.Proofs.Fences
import Markdown.Proofs.FootnoteLinks
import Markdown.Proofs.ForeignBlocks
import Markdown.Proofs.Guarded
import Markdown.Proofs.HeadingLines
import Markdown.Proofs.HighlightGuard
import Markdown.Proofs.Hits
import Markdown.Proofs.InlineContained
import Markdown.Proofs.InlineDigits
import Markdown.Proofs.InlineGuard
import Markdown.Proofs.InlineTexts
import Markdown.Proofs.JsonGrammar
import Markdown.Proofs.JsonLexemes
import Markdown.Proofs.JsonLines
import Markdown.Proofs.JsonNumbers
import Markdown.Proofs.JsonScalars
import Markdown.Proofs.Keywords
import Markdown.Proofs.Levels
import Markdown.Proofs.Lines
import Markdown.Proofs.ListLines
import Markdown.Proofs.Listing
import Markdown.Proofs.Literal
import Markdown.Proofs.Locality
import Markdown.Proofs.Lossless
import Markdown.Proofs.LowerCase
import Markdown.Proofs.Markup
import Markdown.Proofs.MarkupFaults
import Markdown.Proofs.Nesting
import Markdown.Proofs.NormalForm
import Markdown.Proofs.Numbering
import Markdown.Proofs.Opaque
import Markdown.Proofs.OutlineTrip
import Markdown.Proofs.Outlines
import Markdown.Proofs.PipeEscapes
import Markdown.Proofs.Plain
import Markdown.Proofs.PrettyJson
import Markdown.Proofs.PrintedListing
import Markdown.Proofs.Quoting
import Markdown.Proofs.Reader
import Markdown.Proofs.ReferenceLinks
import Markdown.Proofs.Registrations
import Markdown.Proofs.RenderGuard
import Markdown.Proofs.RoundTrip
import Markdown.Proofs.Runs
import Markdown.Proofs.Scanners
import Markdown.Proofs.Scopes
import Markdown.Proofs.Search
import Markdown.Proofs.Separation
import Markdown.Proofs.Shapes
import Markdown.Proofs.ShellLines
import Markdown.Proofs.Spans
import Markdown.Proofs.StyleSheets
import Markdown.Proofs.TableRows
import Markdown.Proofs.TableTrip
import Markdown.Proofs.Tiling
import Markdown.Proofs.TogglePlaces
import Markdown.Proofs.Toggles
import Markdown.Proofs.Undisturbed
import Markdown.Proofs.Visible
import Markdown.Proofs.VisibleColumns
import Markdown.Proofs.Visits
import Markdown.Proofs.WellFormed
import Markdown.Proofs.Written
import Markdown.References
import Markdown.Render
import Markdown.Report
import Markdown.Text.Basic
import Markdown.Text.Caseless
import Markdown.Text.Fragments
import Markdown.Text.Letters
import Markdown.Text.Lowercase
import Markdown.Text.Numeral
import Markdown.Text.Quoted
import Markdown.Text.Ranges
import Markdown.Text.Replace
import Markdown.Text.Segment
import Markdown.Yaml.Cursor
import Markdown.Yaml.Fault
import Markdown.Yaml.Graph
import Markdown.Yaml.Meaning
import Markdown.Yaml.Scalar
import Markdown.Yaml.Tag
import Markdown.Yaml.Token
