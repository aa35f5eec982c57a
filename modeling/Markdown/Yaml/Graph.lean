import Markdown.Yaml.Tag
import Markdown.Yaml.Token

/-!
# The node graph of a YAML document

`Graph.ofText` reads the tokens of a text into numbered nodes. An alias is the number of the node
with that anchor, so nodes may be shared and may contain themselves. A text must hold a single
document.

A reader looks no further than it has to. Where it refuses a text, it says whether it has seen a
token that does not fit or has run out of tokens: in the second case the failure of the scanner
decides.
-/

namespace Markdown.Yaml

/-- What a node holds; other nodes are given by their numbers. -/
inductive Content where
  /-- A text. -/
  | scalar (text : Text)
  /-- Items in order. -/
  | sequence (items : List Nat)
  /-- Keys with their values, in order. -/
  | mapping (entries : List (Nat × Nat))
  deriving Repr, Inhabited

/-- A node. -/
structure Node where
  /-- How it is understood. -/
  tag : Tag
  /-- What it holds. -/
  content : Content
  deriving Repr

/-- The nodes of a document, and the names of those that have an anchor. -/
structure Graph where
  /-- What the tag handles stand for, the first entry of a handle counts. -/
  handles : List (Text × Text)
  /-- The nodes by number. -/
  nodes : Array Node
  /-- The numbers of the nodes with an anchor. -/
  anchors : List (Text × Nat)

/-- The tag handles that every document has. -/
def knownHandles : List (Text × Text) :=
  [(['!'], ['!']), (['!', '!'], tagHead)]

namespace Graph

/-- The graph without nodes of a document that declares some handles. -/
def empty (declared : List (Text × Text)) : Graph :=
  ⟨declared ++ knownHandles, #[], []⟩

/-- The graph with one more node; its number is the old size. -/
def add (g : Graph) (anchor : Option Text) (n : Node) : Graph :=
  { g with
    nodes := g.nodes.push n
    anchors := match anchor with
      | some a => (a, g.nodes.size) :: g.anchors
      | none => g.anchors }

/-- The graph with another content in a node. -/
def fill (g : Graph) (id : Nat) (c : Content) : Graph :=
  { g with nodes := g.nodes.modify id fun n => { n with content := c } }

end Graph

/-- Where a reader of tokens gives up. -/
inductive Refusal where
  /-- At a token that does not fit. -/
  | token
  /-- Behind the last token. -/
  | exhausted
  deriving DecidableEq

/-- The refusal in front of the tokens that are left. -/
def refusal (ts : List Token) : Refusal :=
  if ts.isEmpty then .exhausted else .token

/-- Gives up in front of the tokens that are left. -/
def refuse {α : Type} (ts : List Token) : Except Refusal α :=
  .error (refusal ts)

/-- A reader of the tokens that are left, which extends the graph. -/
abbrev Compose (α : Type) := List Token → Graph → Except Refusal (α × List Token × Graph)

/-- What was read in front of a node. -/
structure Properties where
  /-- The anchor. -/
  anchor : Option Text
  /-- The full name of the tag. -/
  tag : Option Text

/-- The full name of a tag; a handle must stand for something. -/
def Graph.fullTag (g : Graph) (handle : Option Text) (suffix : Text) (refusal : Refusal) :
    Except Refusal Text :=
  match handle with
  | none => .ok suffix
  | some h =>
    match g.handles.find? fun e => e.1 == h with
    | some e => .ok (e.2 ++ suffix)
    | none => .error refusal

/-- The anchor and the tag in front of a node, in either order. The token behind a tag is looked at
before its handle, unless an anchor stood in front of the tag. -/
def readProperties (g : Graph) : List Token → Except Refusal (Properties × List Token)
  | .anchor a :: .tag h s :: r => do .ok (⟨some a, some (← g.fullTag h s .token)⟩, r)
  | .tag h s :: .anchor a :: r => do .ok (⟨some a, some (← g.fullTag h s .token)⟩, r)
  | .anchor a :: r => .ok (⟨some a, none⟩, r)
  | .tag h s :: r => do .ok (⟨none, some (← g.fullTag h s (refusal r))⟩, r)
  | ts => .ok (⟨none, none⟩, ts)

/-- The tag of a node that holds a collection. -/
def collectionTag (p : Properties) (default : Tag) : Tag :=
  match p.tag with
  | none => default
  | some t => if t == ['!'] then default else Tag.ofName t

/-- The tag of a scalar: a plain one without a tag, and one with the tag `!`, gets it from its
shape. -/
def scalarTag (p : Properties) (text : Text) (plain : Bool) : Tag :=
  match p.tag with
  | none => if plain then implicitTag text else .str
  | some t => if t == ['!'] then implicitTag text else Tag.ofName t

/-- A scalar node. -/
def scalarNode (p : Properties) (text : Text) (plain : Bool) : Compose Nat := fun ts g =>
  .ok (g.nodes.size, ts, g.add p.anchor ⟨scalarTag p text plain, .scalar text⟩)

/-- A node without text. -/
def emptyNode : Compose Nat :=
  scalarNode ⟨none, none⟩ [] true

/-- What a node may be in its place. -/
structure Place where
  /-- Indented collections are allowed. -/
  block : Bool
  /-- A sequence may stand at the column of its key. -/
  indentless : Bool

/-- The entries of a sequence: indented, at the column of their key, or in brackets. -/
inductive SequenceStyle where
  /-- Indented. -/
  | block
  /-- At the column of their key. -/
  | indentless
  /-- In brackets. -/
  | flow
  deriving DecidableEq

mutual

/-- A node. -/
def composeNode (place : Place) : Nat → Compose Nat
  | 0, ts, _ => refuse ts
  | fuel + 1, ts, g =>
    match ts with
    | .alias name :: r =>
      match g.anchors.find? fun a => a.1 == name with
      | some a => .ok (a.2, r, g)
      | none => .error .token
    | _ => do
      let (p, ts) ← readProperties g ts
      let known := match p.anchor with
        | some a => g.anchors.any fun b => b.1 == a
        | none => false
      if known then refuse ts
      else
        let sequence (style : SequenceStyle) (ts : List Token) :
            Except Refusal (Nat × List Token × Graph) := do
          let id := g.nodes.size
          let g := g.add p.anchor ⟨collectionTag p .seq, .sequence []⟩
          let (items, ts, g) ← composeItems style true fuel ts g
          .ok (id, ts, g.fill id (.sequence items))
        let mapping (flow : Bool) (ts : List Token) :
            Except Refusal (Nat × List Token × Graph) := do
          let id := g.nodes.size
          let g := g.add p.anchor ⟨collectionTag p .map, .mapping []⟩
          let (entries, ts, g) ← composeEntries flow true fuel ts g
          .ok (id, ts, g.fill id (.mapping entries))
        match ts with
        | .scalar text plain :: r => scalarNode p text plain r g
        | .flowSequence :: r => sequence .flow r
        | .flowMapping :: r => mapping true r
        | .blockEntry :: _ =>
          if place.indentless then sequence .indentless ts
          else if p.anchor.isSome || p.tag.isSome then scalarNode p [] p.tag.isNone ts g
          else refuse ts
        | .blockSequence :: r =>
          if place.block then sequence .block r
          else if p.anchor.isSome || p.tag.isSome then scalarNode p [] p.tag.isNone ts g
          else refuse ts
        | .blockMapping :: r =>
          if place.block then mapping false r
          else if p.anchor.isSome || p.tag.isSome then scalarNode p [] p.tag.isNone ts g
          else refuse ts
        | _ =>
          if p.anchor.isSome || p.tag.isSome then scalarNode p [] p.tag.isNone ts g
          else refuse ts

/-- The items of a sequence behind its start; `first` tells that no item has been read. -/
def composeItems (style : SequenceStyle) (first : Bool) : Nat → Compose (List Nat)
  | 0, ts, _ => refuse ts
  | fuel + 1, ts, g =>
    let item (empty : Bool) (ts : List Token) : Except Refusal (List Nat × List Token × Graph) := do
      let (id, ts, g) ←
        if empty then emptyNode ts g else composeNode ⟨style != .flow, false⟩ fuel ts g
      let (more, ts, g) ← composeItems style false fuel ts g
      .ok (id :: more, ts, g)
    match style, ts with
    | .block, .blockEntry :: r =>
      item (match r with
        | .blockEntry :: _ => true
        | .blockEnd :: _ => true
        | _ => false) r
    | .block, .blockEnd :: r => .ok ([], r, g)
    | .block, _ => refuse ts
    | .indentless, .blockEntry :: r =>
      item (match r with
        | .blockEntry :: _ => true
        | .key :: _ => true
        | .value :: _ => true
        | .blockEnd :: _ => true
        | _ => false) r
    | .indentless, ts => .ok ([], ts, g)
    | .flow, .flowSequenceEnd :: r => .ok ([], r, g)
    | .flow, ts => do
      let ts ← (if first then .ok ts else
        match ts with
        | .flowEntry :: r => .ok r
        | _ => refuse ts : Except Refusal (List Token))
      match ts with
      | .flowSequenceEnd :: r => .ok ([], r, g)
      | .key :: r => do
        let id := g.nodes.size
        let g := g.add none ⟨.map, .mapping []⟩
        let (k, ts, g) ← composeSlot .flowSequenceEnd true fuel r g
        let (v, ts, g) ← match ts with
          | .value :: r => composeSlot .flowSequenceEnd false fuel r g
          | _ => emptyNode ts g
        let g := g.fill id (.mapping [(k, v)])
        let (more, ts, g) ← composeItems .flow false fuel ts g
        .ok (id :: more, ts, g)
      | _ => item false ts

/-- A key or a value inside brackets that `close` ends; it may be missing. -/
def composeSlot (close : Token) (key : Bool) : Nat → Compose Nat
  | 0, ts, _ => refuse ts
  | fuel + 1, ts, g =>
    match ts with
    | [] => composeNode ⟨false, false⟩ fuel ts g
    | t :: _ =>
      if (key && t == .value) || t == .flowEntry || t == close then emptyNode ts g
      else composeNode ⟨false, false⟩ fuel ts g

/-- The entries of a mapping behind its start. -/
def composeEntries (flow first : Bool) : Nat → Compose (List (Nat × Nat))
  | 0, ts, _ => refuse ts
  | fuel + 1, ts, g =>
    if flow then
      match ts with
      | .flowMappingEnd :: r => .ok ([], r, g)
      | _ => do
        let ts ← (if first then .ok ts else
          match ts with
          | .flowEntry :: r => .ok r
          | _ => refuse ts : Except Refusal (List Token))
        match ts with
        | .flowMappingEnd :: r => .ok ([], r, g)
        | .key :: r => do
          let (k, ts, g) ← composeSlot .flowMappingEnd true fuel r g
          let (v, ts, g) ← match ts with
            | .value :: r => composeSlot .flowMappingEnd false fuel r g
            | _ => emptyNode ts g
          let (more, ts, g) ← composeEntries true false fuel ts g
          .ok ((k, v) :: more, ts, g)
        | _ => do
          let (k, ts, g) ← composeNode ⟨false, false⟩ fuel ts g
          let (v, ts, g) ← emptyNode ts g
          let (more, ts, g) ← composeEntries true false fuel ts g
          .ok ((k, v) :: more, ts, g)
    else
      let absent (ts : List Token) : Bool := match ts with
        | .key :: _ => true
        | .value :: _ => true
        | .blockEnd :: _ => true
        | _ => false
      let slot (ts : List Token) (g : Graph) : Except Refusal (Nat × List Token × Graph) :=
        if absent ts then emptyNode ts g else composeNode ⟨true, true⟩ fuel ts g
      match ts with
      | .key :: r => do
        let (k, ts, g) ← slot r g
        let (v, ts, g) ← match ts with
          | .value :: r => slot r g
          | _ => emptyNode ts g
        let (more, ts, g) ← composeEntries false false fuel ts g
        .ok ((k, v) :: more, ts, g)
      | .blockEnd :: r => .ok ([], r, g)
      | _ => refuse ts

end

/-- The directives in front of a document: the handles that they declare, and the tokens behind them.
The version is given at most once, and a handle is declared at most once. -/
def readDirectives (versioned : Bool) (declared : List (Text × Text)) :
    List Token → Except Refusal (List (Text × Text) × List Token)
  | .directive (.version major) :: r =>
    if versioned || major != 1 then .error .token else readDirectives true declared r
  | .directive (.handle name text) :: r =>
    if declared.any fun e => e.1 == name then .error .token
    else readDirectives versioned ((name, text) :: declared) r
  | .directive .other :: r => readDirectives versioned declared r
  | ts => .ok (declared, ts)

/-- The end of the text behind a document. Another document is refused behind its directives. -/
def readEnd (ts : List Token) : Except Refusal Unit :=
  match ts.dropWhile (· == .documentEnd) with
  | .streamEnd :: _ => .ok ()
  | ts => do
    let (_, ts) ← readDirectives false [] ts
    refuse ts

/-- A document that is not opened by a line of its own, up to the end of the text. -/
def composeBare (ts : List Token) (g : Graph) : Except Refusal (Nat × Graph) := do
  let (id, ts, g) ← composeNode ⟨true, false⟩ (4 * ts.length + 8) ts g
  readEnd ts
  .ok (id, g)

/-- The content of a document behind the line that opens it, up to the end of the text; it may be
missing. -/
def composeContent (ts : List Token) (g : Graph) : Except Refusal (Nat × Graph) :=
  match ts with
  | .directive _ :: _ | .documentStart :: _ | .documentEnd :: _ | .streamEnd :: _ => do
    let (id, ts, g) ← emptyNode ts g
    readEnd ts
    .ok (id, g)
  | ts => composeBare ts g

/-- A whole text: one document, perhaps between the lines that start and end it. It answers the root
and the graph, or nothing for an empty text. -/
def composeDocument (ts : List Token) : Except Refusal (Option (Nat × Graph)) :=
  match ts with
  | .streamEnd :: _ => .ok none
  | .directive _ :: _ | .documentStart :: _ => do
    let (declared, ts) ← readDirectives false [] ts
    match ts with
    | .documentStart :: r => do .ok (some (← composeContent r (.empty declared)))
    | ts => refuse ts
  | ts => do .ok (some (← composeBare ts (.empty [])))

/-- The root and the graph of a text. A failure of the scanner counts only where the reader needs
more tokens than were released before it. -/
def Graph.ofText (t : Text) : Except Failure (Option (Nat × Graph)) :=
  let (tokens, failure) := scan t
  match composeDocument tokens with
  | .ok found => .ok found
  | .error .token => .error .malformed
  | .error .exhausted => .error (failure.getD .malformed)

end Markdown.Yaml
