import Markdown.Text.Lowercase
import Markdown.Text.Numeral
import Markdown.Yaml.Graph

/-!
# The meaning of a YAML document

`Yaml.load` says what a text holds: a collection, another value, or nothing that can be read. To
read a document, every node must fit its tag, and a key must be a value that can be compared.
Nodes are read breadth first, each once; the first node that does not fit decides the answer.
-/

namespace Markdown.Yaml

/-- What a text holds. -/
inductive Outcome where
  /-- A mapping or a sequence. -/
  | collection
  /-- Another value. -/
  | other
  /-- Nothing that can be read. -/
  | unreadable
  /-- The reading is broken off by a fault. -/
  | broken (fault : Fault)
  deriving DecidableEq, Repr

/-- The kind of a value. -/
inductive Kind where
  /-- A value that may be a key. -/
  | atom
  /-- A mapping or a sequence. -/
  | collection
  /-- A set. -/
  | set
  deriving DecidableEq, Repr

/-! ### Scalars -/

/-- The text without underscores. -/
def dropUnderscores (t : Text) : Text :=
  t.filter (· != '_')

/-- A numeral must be one; a fault of its length or shape makes the document unreadable. -/
def requireInteger (base : Nat) (t : Text) : Except Failure Unit :=
  match Text.integerFault? base t with
  | none => .ok ()
  | some _ => .error .malformed

/-- Reads a scalar tagged as whole number. -/
def readInt (text : Text) : Except Failure Unit :=
  match dropUnderscores text with
  | [] => .error (.broken .emptyNumber)
  | t =>
    match Text.dropSign t with
    | [] => .error (.broken .emptyNumber)
    | '0' :: [] => .ok ()
    | '0' :: 'b' :: r => requireInteger 2 r
    | '0' :: 'x' :: r => requireInteger 16 r
    | '0' :: r => requireInteger 8 ('0' :: r)
    | t => if ':' ∈ t then (t.splitOn ':').forM (requireInteger 10) else requireInteger 10 t

/-- The greatest number of groups to base sixty whose weights are all in the range of fractions. -/
def maxGroups : Nat := 174

/-- Reads a scalar tagged as fraction. -/
def readFloat (text : Text) : Except Failure Unit :=
  match Text.lower (dropUnderscores text) with
  | [] => .error (.broken .emptyNumber)
  | t =>
    let t := Text.dropSign t
    if t == ".inf".toList || t == ".nan".toList then .ok ()
    else if ':' ∈ t then
      let groups := t.splitOn ':'
      if !groups.all Text.isDecimal then .error .malformed
      else if maxGroups < groups.length then .error (.broken .sexagesimalOverflow)
      else .ok ()
    else if Text.isDecimal t then .ok ()
    else .error .malformed

/-- Reads a scalar tagged as truth value. -/
def readBool (text : Text) : Except Failure Unit :=
  let word := Text.lower text
  if ["yes".toList, "no".toList, "true".toList, "false".toList, "on".toList,
      "off".toList].contains word then .ok ()
  else .error (.broken (.unknownTruthValue word))

/-- The value of a character in base 64. -/
def isBase64 (c : Char) : Bool :=
  Text.isAsciiLetter c || Text.isAsciiDigit c || c == '+' || c == '/'

/-- Whether characters in base 64 form whole bytes: `filled` counts the characters of the current
group and `pads` the padding behind them. Other characters are skipped. -/
def isBase64Text (filled pads : Nat) : Text → Bool
  | [] => filled == 0
  | c :: r =>
    if c == '=' then
      if 2 ≤ filled then
        if 4 ≤ filled + (pads + 1) then true else isBase64Text filled (pads + 1) r
      else isBase64Text filled pads r
    else if isBase64 c then isBase64Text ((filled + 1) % 4) 0 r
    else isBase64Text filled pads r

/-- Reads a scalar tagged as bytes. -/
def readBinary (text : Text) : Except Failure Unit :=
  if text.all (fun c => c.toNat < 0x80) && isBase64Text 0 0 text then .ok ()
  else .error .malformed

/-- The number of days of a month. -/
def daysOf (year month : Nat) : Nat :=
  if month == 2 then
    if year % 4 == 0 && (year % 100 != 0 || year % 400 == 0) then 29 else 28
  else if month == 4 || month == 6 || month == 9 || month == 11 then 30
  else 31

/-- Whether a date and its time of day exist. -/
def Timestamp.exists (s : Timestamp) : Bool :=
  1 ≤ s.year && 1 ≤ s.month && s.month ≤ 12 && 1 ≤ s.day && s.day ≤ daysOf s.year s.month &&
    (match s.clock with
      | none => true
      | some c =>
        c.hour ≤ 23 && c.minute ≤ 59 && c.second ≤ 59 &&
          (match c.zone with
            | none => true
            | some (h, m) => h * 60 + m < 1440))

/-- Reads a scalar tagged as timestamp. -/
def readTime (text : Text) : Except Failure Unit :=
  match readTimestamp (dropFinalBreak text) with
  | none => .error (.broken .unreadableTimestamp)
  | some s => if s.exists then .ok () else .error .malformed

/-! ### Nodes -/

namespace Graph

/-- A node by its number. -/
def node? (g : Graph) (id : Nat) : Option Node :=
  g.nodes[id]?

/-- The tag of a node. -/
def tagOf (g : Graph) (id : Nat) : Tag :=
  match g.node? id with
  | some n => n.tag
  | none => .unknown

/-- The entries of a mapping. -/
def entries? (g : Graph) (id : Nat) : Option (List (Nat × Nat)) :=
  match g.node? id with
  | some ⟨_, .mapping es⟩ => some es
  | _ => none

/-- The graph with another tag at a node. -/
def retag (g : Graph) (id : Nat) (t : Tag) : Graph :=
  { g with nodes := g.nodes.modify id fun n => { n with tag := t } }

/-- The text of a node: that of a scalar, or that of the default value of a mapping. -/
def text? (g : Graph) : Nat → Nat → Option Text
  | 0, _ => none
  | fuel + 1, id =>
    match g.node? id with
    | some ⟨_, .scalar t⟩ => some t
    | some ⟨_, .mapping es⟩ =>
      match es.find? fun e => g.tagOf e.1 == .value with
      | some e => g.text? fuel e.2
      | none => none
    | _ => none

/-- How many entries of the graph have the merge key. -/
def mergeCount (g : Graph) : Nat :=
  g.nodes.foldl (fun n node =>
    match node.content with
    | .mapping es => n + (es.filter fun e => g.tagOf e.1 == .merge).length
    | _ => n) 0

/-- Replaces the merge entries of a mapping by the entries of the mappings that they name, in
front of its own; keys of default values become strings. -/
def flatten : Nat → Nat → List (Nat × Nat) → Graph → Except Failure Graph
  | 0, _, _, g => .ok g
  | fuel + 1, id, merged, g =>
    match g.entries? id with
    | none => .ok g
    | some es =>
      let before := es.takeWhile fun e => g.tagOf e.1 != .merge
      let g := before.foldl (fun g e =>
        if g.tagOf e.1 == .value then g.retag e.1 .str else g) g
      match es.drop before.length with
      | [] => .ok (g.fill id (.mapping (merged ++ es)))
      | (_, v) :: after => do
        -- The entry is taken out before what it names is flattened, so fewer of them are left.
        let g := g.fill id (.mapping (before ++ after))
        match g.node? v with
        | some ⟨_, .mapping _⟩ => do
          let g ← flatten fuel v [] g
          flatten fuel id (merged ++ (g.entries? v).getD []) g
        | some ⟨_, .sequence items⟩ => do
          let (parts, g) ← items.foldlM (fun (found : List (List (Nat × Nat)) × Graph) item =>
            match found.2.node? item with
            | some ⟨_, .mapping _⟩ => do
              let g ← flatten fuel item [] found.2
              .ok ((g.entries? item).getD [] :: found.1, g)
            | _ => .error .malformed) ([], g)
          flatten fuel id (merged ++ parts.flatten) g
        | _ => .error .malformed

end Graph

/-- The progress of a reading: the graph, the kinds of the nodes that have been read, and the
collections that still have to be filled, the latest first. -/
structure Reading where
  /-- The graph. -/
  graph : Graph
  /-- The kinds of the nodes read so far. -/
  kinds : List (Nat × Kind)
  /-- The collections to be filled. -/
  waiting : List Nat

/-- Reads a node that has not been read: a scalar at once, a collection later. -/
def readNode (id : Nat) (s : Reading) : Except Failure (Kind × Reading) :=
  match s.kinds.find? fun k => k.1 == id with
  | some k => .ok (k.2, s)
  | none =>
    let known (k : Kind) : Kind × Reading := (k, { s with kinds := (id, k) :: s.kinds })
    let later (k : Kind) : Kind × Reading :=
      (k, { s with kinds := (id, k) :: s.kinds, waiting := id :: s.waiting })
    let text (read : Text → Except Failure Unit) : Except Failure (Kind × Reading) :=
      match s.graph.text? (s.graph.nodes.size + 1) id with
      | none => .error .malformed
      | some t => do
        read t
        .ok (known .atom)
    match s.graph.tagOf id with
    | .null => text fun _ => .ok ()
    | .bool => text readBool
    | .int => text readInt
    | .float => text readFloat
    | .binary => text readBinary
    | .timestamp =>
      match s.graph.entries? id with
      | some _ => text fun _ => .error (.broken .timestampMapping)
      | none => text readTime
    | .str => text fun _ => .ok ()
    | .omap | .pairs | .seq | .map => .ok (later .collection)
    | .set => .ok (later .set)
    | .merge | .value | .unknown => .error .malformed

/-- Reads nodes one after another. -/
def readAll (ids : List Nat) (s : Reading) : Except Failure Reading :=
  ids.foldlM (fun s id => (readNode id s).map (·.2)) s

/-- Reads the entries of a mapping; a key must be an atom. -/
def readEntries (es : List (Nat × Nat)) (s : Reading) : Except Failure Reading :=
  es.foldlM (fun s e => do
    let (k, s) ← readNode e.1 s
    if k == .atom then (readNode e.2 s).map (·.2) else .error .malformed) s

/-- Reads the items of a list of pairs: mappings with one entry each. -/
def readPairs (ids : List Nat) (s : Reading) : Except Failure Reading :=
  ids.foldlM (fun s id =>
    match s.graph.entries? id with
    | some [(k, v)] => readAll [k, v] s
    | _ => .error .malformed) s

/-- Fills a collection. -/
def fillNode (id : Nat) (s : Reading) : Except Failure Reading :=
  match s.graph.tagOf id, s.graph.node? id with
  | .seq, some ⟨_, .sequence items⟩ => readAll items s
  | .omap, some ⟨_, .sequence items⟩ => readPairs items s
  | .pairs, some ⟨_, .sequence items⟩ => readPairs items s
  | .map, some ⟨_, .mapping _⟩ => fillMapping
  | .set, some ⟨_, .mapping _⟩ => fillMapping
  | _, _ => .error .malformed
where
  /-- Fills a mapping, whose merge entries are resolved first. -/
  fillMapping : Except Failure Reading := do
    let g ← Graph.flatten (s.graph.mergeCount + 1) id [] s.graph
    readEntries ((g.entries? id).getD []) { s with graph := g }

/-- Fills the collections that wait, and those that they bring, breadth first. -/
def fillAll : Nat → Reading → Except Failure Reading
  | 0, s => .ok s
  | fuel + 1, s =>
    match s.waiting with
    | [] => .ok s
    | ids => do
      let s ← ids.reverse.foldlM (fun s id => fillNode id s) { s with waiting := [] }
      fillAll fuel s

/-- What a text holds. -/
def load (t : Text) : Outcome :=
  let result : Except Failure Outcome := do
    match ← Graph.ofText t with
    | none => .ok .other
    | some (root, g) => do
      let (k, s) ← readNode root ⟨g, [], []⟩
      let _ ← fillAll (g.nodes.size + 1) s
      .ok (if k == .collection then .collection else .other)
  match result with
  | .ok o => o
  | .error .malformed => .unreadable
  | .error (.broken f) => .broken f

/-- A reader of YAML. Documents are split with the reader in scope, which is that of this library if
there is no other. What is proved with `[Yaml.Reader]` in front holds whatever a reader makes of a
text. -/
class Reader where
  /-- What a text holds. -/
  load : Text → Outcome

/-- The reader of this library. -/
instance builtin : Reader :=
  ⟨load⟩

end Markdown.Yaml
