import Markdown.Block.Fence
import Markdown.Block.Glossary
import Markdown.Block.Heading
import Markdown.Block.Listing
import Markdown.Block.Paragraph
import Markdown.Block.Table
import Markdown.Config
import Markdown.References

/-!
# Documents

`Document.blocks` splits lines into blocks. At each line that is not blank the recognisers are
tried in a fixed order, and the first that answers decides; what no recogniser takes is a
paragraph. Quoted lines are split in the same way.
-/

namespace Markdown

/-- The kinds of blocks that have a recogniser. -/
inductive Shape where
  /-- Code behind a fence. -/
  | fencedCode
  /-- A heading behind hashes. -/
  | hashHeading
  /-- A heading above an underline. -/
  | underlinedHeading
  /-- A thematic break. -/
  | rule
  /-- Quoted lines. -/
  | quote
  /-- A pipe table. -/
  | table
  /-- A definition list. -/
  | glossary
  /-- A list. -/
  | list
  /-- Indented code. -/
  | indentedCode
  /-- Unfenced JSON. -/
  | json
  /-- Unfenced YAML. -/
  | yaml
  deriving DecidableEq, Repr

namespace Shape

/-- The shapes that go before quoted lines, in the order in which they are tried. -/
def beforeQuote : List Shape :=
  [.fencedCode, .hashHeading, .underlinedHeading, .rule]

/-- The shapes that come behind quoted lines, in the order in which they are tried. Data comes
last, so that lists such as `- Buy: milk` stay lists. -/
def afterQuote (structured : Bool) : List Shape :=
  [.table, .glossary, .list, .indentedCode] ++ if structured then [.json, .yaml] else []

/-- All shapes in the order in which they are tried. -/
def priority (structured : Bool) : List Shape :=
  beforeQuote ++ .quote :: afterQuote structured

/-- The recogniser of a shape, quoted lines excepted. -/
def recogniser [Yaml.Reader] : Shape → Recogniser
  | .fencedCode => Fence.recognise
  | .hashHeading => Heading.recognise
  | .underlinedHeading => Heading.recogniseUnderlined
  | .rule => Heading.recogniseRule
  | .quote => fun _ _ _ => none
  | .table => Table.recognise
  | .glossary => Glossary.recognise
  | .list => Listing.recognise
  | .indentedCode => Fence.recogniseIndented
  | .json => Data.recogniseJson
  | .yaml => Data.recogniseYaml

/-- The first answer among the recognisers of some shapes. -/
def firstMatch [Yaml.Reader] (shapes : List Shape) : Recogniser := fun number line rest =>
  shapes.findSome? fun s => s.recogniser number line rest

end Shape

namespace Quote

/-- The text of a quoted line: the mark and one space behind it are dropped. -/
def strip? (line : Text) : Option Text :=
  match Text.trimStart line with
  | '>' :: ' ' :: r => some r
  | '>' :: r => some r
  | _ => none

/-- The texts of the quoted lines at the start of some lines. -/
def body : List Text → List Text
  | [] => []
  | line :: r =>
    match strip? line with
    | some t => t :: body r
    | none => []

/-- The size of some lines, line ends included. It bounds the nesting of quotes in them. -/
def size : List Text → Nat
  | [] => 0
  | line :: r => line.length + 1 + size r

@[simp] theorem size_cons (line : Text) (r : List Text) :
    size (line :: r) = line.length + 1 + size r := rfl

theorem length_lt_of_strip? {line t : Text} (h : strip? line = some t) :
    t.length < line.length := by
  have hle : (Text.trimStart line).length ≤ line.length := (List.dropWhile_sublist _).length_le
  unfold strip? at h
  split at h
  · next r heq =>
    cases h
    rw [heq] at hle
    simp at hle
    omega
  · next r heq =>
    cases h
    rw [heq] at hle
    simp at hle
    omega
  · cases h

theorem size_body_le (lines : List Text) : size (body lines) ≤ size lines := by
  induction lines with
  | nil => simp [body]
  | cons line r ih =>
    rw [body]
    split
    · next t h =>
      have := length_lt_of_strip? h
      simp only [size_cons]
      omega
    · exact Nat.zero_le _

theorem size_drop_le (n : Nat) (lines : List Text) : size (lines.drop n) ≤ size lines := by
  induction lines generalizing n with
  | nil => simp
  | cons line r ih =>
    cases n with
    | zero => simp
    | succ n =>
      have := ih n
      simp only [List.drop_succ_cons, size_cons]
      omega

end Quote

namespace Document

/-- The blocks of some lines; `number` is the number of the first of them. -/
def blocksFrom [Yaml.Reader] (structured : Bool) (number : Nat) : List Text → Report (List Block)
  | [] => pure []
  | line :: rest =>
    if Text.allBlank line then blocksFrom structured (number + 1) rest
    else
      match Shape.firstMatch Shape.beforeQuote number line rest with
      | some m => do
        let block ← m.report
        let more ← blocksFrom structured (number + m.extra + 1) (rest.drop m.extra)
        pure (block :: more)
      | none =>
        match h : Quote.strip? line with
        | some text => do
          let inner := Quote.body rest
          let children ← blocksFrom structured 0 (text :: inner)
          let more ← blocksFrom structured (number + inner.length + 1) (rest.drop inner.length)
          pure (.quote (Text.unlines (text :: inner)) children :: more)
        | none => do
          let m := (Shape.firstMatch (Shape.afterQuote structured) number line rest).getD
            (Paragraph.startingAt number line rest)
          let block ← m.report
          let more ← blocksFrom structured (number + m.extra + 1) (rest.drop m.extra)
          pure (block :: more)
termination_by lines => Quote.size lines
decreasing_by
  · simp
  · exact Nat.lt_of_le_of_lt (Quote.size_drop_le _ rest) (by simp)
  · have := Quote.length_lt_of_strip? h
    have := Quote.size_body_le rest
    simp only [Quote.size_cons]
    omega
  · exact Nat.lt_of_le_of_lt (Quote.size_drop_le _ rest) (by simp)
  · exact Nat.lt_of_le_of_lt (Quote.size_drop_le _ rest) (by simp)

/-- The blocks of some lines. -/
def blocks [Yaml.Reader] (structured : Bool) (lines : List Text) : Report (List Block) :=
  blocksFrom structured 0 lines

/-- The recogniser of a shape on its own. Quoted lines are split with the given switch. -/
def recognise [Yaml.Reader] (structured : Bool) (shape : Shape) : Recogniser :=
    fun number line rest =>
  match shape with
  | .quote =>
    (Quote.strip? line).map fun text =>
      let inner := Quote.body rest
      let children := blocks structured (text :: inner)
      ⟨.quote (Text.unlines (text :: inner)) children.value, inner.length, children.notes⟩
  | shape => shape.recogniser number line rest

/-- Splits a text into blocks. Its definitions are added to those given and taken out of the
text first. -/
def tokenize [Yaml.Reader] (c : Config) (t : Text) (s : References) :
    Report (List Block) × References :=
  if t.isEmpty then (pure [], s)
  else
    let (source, s) := s.extract (Text.normalizeNewlines t)
    let report := do
      let bs ← blocks c.structuredData (Text.lines source)
      Report.log (.tokenized bs.length s.links.length s.notes.length)
      pure bs
    (report, s)

/-- Splits a value into blocks: a void value has none, and any other value must be a text. -/
def tokenizeValue [Yaml.Reader] (c : Config) (v : Json) (s : References) :
    Report (List Block) × References :=
  match v with
  | .string t => tokenize c t s
  | v => if v.isVoid then (pure [], s) else (do Report.fail (.notMarkdown v.kind); pure [], s)

end Document

end Markdown
