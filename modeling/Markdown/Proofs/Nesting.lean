import Markdown.Proofs.Shapes
import Markdown.Proofs.Tiling

/-!
# Blocks at all depths

Entries of lists hold lists, and quotes hold the blocks of their lines. `Block.Every p` says that a
property holds of a block and of all blocks inside it. `Document.every_blocksFrom` shows it of all
blocks of a document once it holds of each block when that block is made: `Document.Yields` lists
these obligations, which may use a property of the lines. With `Document.YieldsWith` they may also use
what is known of the notes, for instance that there is no fault.
-/

namespace Markdown

mutual

/-- A property holds of a block and of all blocks inside it. -/
def Block.Every (p : Block → Prop) : Block → Prop
  | .list ordered start items => p (.list ordered start items) ∧ Item.AllEvery p items
  | .quote content children => p (.quote content children) ∧ Block.AllEvery p children
  | b => p b

/-- A property holds of some blocks and of all blocks inside them. -/
def Block.AllEvery (p : Block → Prop) : List Block → Prop
  | [] => True
  | b :: r => b.Every p ∧ Block.AllEvery p r

/-- A property holds of all blocks inside an entry. -/
def Item.Every (p : Block → Prop) : Item → Prop
  | .mk _ _ children => Block.AllEvery p children

/-- A property holds of all blocks inside some entries. -/
def Item.AllEvery (p : Block → Prop) : List Item → Prop
  | [] => True
  | i :: r => i.Every p ∧ Item.AllEvery p r

end

variable {p : Block → Prop}

theorem Block.allEvery_iff {bs : List Block} :
    Block.AllEvery p bs ↔ ∀ b ∈ bs, b.Every p := by
  induction bs with
  | nil => simp [AllEvery]
  | cons b r ih => simp [AllEvery, ih]

theorem Item.allEvery_iff {items : List Item} :
    Item.AllEvery p items ↔ ∀ i ∈ items, i.Every p := by
  induction items with
  | nil => simp [AllEvery]
  | cons i r ih => simp [AllEvery, ih]

/-- Whether a block holds no others. -/
def Block.isLeaf : Block → Bool
  | .list .. => false
  | .quote .. => false
  | _ => true

theorem Block.every_iff_of_isLeaf {b : Block} (hb : b.isLeaf = true) : b.Every p ↔ p b := by
  cases b with
  | list => cases hb
  | quote => cases hb
  | _ => exact Iff.rfl

/-! ### Lists -/

namespace Listing

theorem every_item (m : Line.Marker) : (item m).Every p := by
  unfold item
  dsimp only
  split
  · exact trivial
  · split <;> exact trivial

theorem every_onLatest {f : Item → Item} (hf : ∀ i : Item, i.Every p → (f i).Every p)
    {items : List Item} (h : ∀ i ∈ items, i.Every p) : ∀ i ∈ onLatest f items, i.Every p := by
  cases items with
  | nil => exact h
  | cons i r =>
    obtain ⟨hi, hr⟩ := List.forall_mem_cons.mp h
    exact List.forall_mem_cons.mpr ⟨hf i hi, hr⟩

theorem every_addLine (line : Text) (i : Item) (h : i.Every p) : (i.addLine line).Every p := by
  cases i
  exact h

theorem every_addChild {b : Block} (hb : b.Every p) (i : Item) (h : i.Every p) :
    (i.addChild b).Every p := by
  cases i with
  | mk content checked children =>
    have hchildren := Block.allEvery_iff.mp h
    refine Block.allEvery_iff.mpr fun c hc => ?_
    rcases List.mem_append.mp hc with hc | hc
    · exact hchildren c hc
    · rwa [List.mem_singleton.mp hc]

/-- The list that a line with a marker opens in front of some lines, at a column. -/
def opened (base : Nat) (m : Line.Marker) (rest : List Text) : Block :=
  list m (start m).value (collect base m.ordered [item m] rest).value.items

theorem holds_drop {q : List Text → Prop} (htail : ∀ line rest, q (line :: rest) → q rest) (n : Nat)
    {lines : List Text} (h : q lines) : q (lines.drop n) := by
  induction n generalizing lines with
  | zero => exact h
  | succ n ih =>
    cases lines with
    | nil => exact h
    | cons line rest => exact ih (htail line rest h)

/-- A property of all lists that markers open holds inside the entries of a list. -/
theorem every_collect {q : List Text → Prop} (htail : ∀ line rest, q (line :: rest) → q rest)
    (hp : ∀ base line rest m, Line.marker? line = some m → q (line :: rest) →
      p (opened base m rest))
    (base : Nat) (ordered : Bool) {done : List Item} (lines : List Text) (hq : q lines)
    (hdone : ∀ i ∈ done, i.Every p) :
    ∀ i ∈ (collect base ordered done lines).value.items, i.Every p := by
  induction hn : lines.length using Nat.strongRecOn generalizing base ordered done lines with
  | ind n ih =>
    cases lines with
    | nil => simpa using hdone
    | cons line rest =>
      simp only [List.length_cons] at hn
      have hrest : q rest := htail line rest hq
      have hdrop : ∀ k, q (rest.drop k) := fun k => holds_drop htail k hrest
      rw [collect_cons]
      split
      · exact fun i hi => hdone i (List.mem_reverse.mp hi)
      · next blanks _ =>
        exact ih _ (by simp only [List.length_drop]; omega) base ordered _ (hdrop blanks) hdone rfl
      · next m hturn =>
        have hitem : ∀ i ∈ [item m], i.Every p := by simpa using every_item m
        have hinner := ih rest.length (by omega) (Line.indent line) m.ordered rest hrest hitem rfl
        have hlist := hp (Line.indent line) line rest m (marker?_of_turn_nest hturn) hq
        have hchild : (opened (Line.indent line) m rest).Every p :=
          ⟨hlist, Item.allEvery_iff.mpr hinner⟩
        exact ih _ (by simp only [List.length_drop]; omega) base ordered _ (hdrop _)
          (every_onLatest (every_addChild hchild) hdone) rfl
      · next m _ =>
        exact ih rest.length (by omega) base ordered rest hrest
          (List.forall_mem_cons.mpr ⟨every_item m, hdone⟩) rfl
      · exact ih rest.length (by omega) base ordered rest hrest
          (every_onLatest (every_addLine (Text.trim line)) hdone) rfl

theorem every_opened {q : List Text → Prop} (htail : ∀ line rest, q (line :: rest) → q rest)
    (hp : ∀ base line rest m, Line.marker? line = some m → q (line :: rest) →
      p (opened base m rest))
    (base : Nat) {line : Text} {rest : List Text} {m : Line.Marker}
    (hm : Line.marker? line = some m) (hq : q (line :: rest)) : (opened base m rest).Every p :=
  ⟨hp base line rest m hm hq, Item.allEvery_iff.mpr
    (every_collect htail hp base m.ordered rest (htail line rest hq) (by simpa using every_item m))⟩

end Listing

/-! ### Documents -/

theorem Shape.isLeaf_of_recogniser [Yaml.Reader] {s : Shape} (hs : s ≠ .list) {number : Nat}
    {line : Text} {rest : List Text} {m : Match} (h : s.recogniser number line rest = some m) :
    m.block.isLeaf = true := by
  unfold recogniser at h
  cases s with
  | fencedCode =>
    obtain ⟨-, rfl⟩ := Fence.recognise_eq_some h
    rfl
  | hashHeading =>
    obtain ⟨n, behind, body, -, -, -, rfl⟩ := Heading.recognise_eq_some h
    rfl
  | underlinedHeading =>
    obtain ⟨next, more, level, -, -, -, rfl⟩ := Heading.recogniseUnderlined_eq_some h
    rfl
  | rule =>
    obtain ⟨-, rfl⟩ := Heading.recogniseRule_eq_some h
    rfl
  | quote => cases h
  | table =>
    obtain ⟨separator, more, alignments, -, -, -, rfl⟩ := Table.recognise_eq_some h
    rfl
  | glossary =>
    obtain ⟨-, rfl⟩ := Glossary.recognise_eq_some h
    rfl
  | list => exact absurd rfl hs
  | indentedCode =>
    obtain ⟨code, -, -, rfl⟩ := Fence.recogniseIndented_eq_some h
    rfl
  | json =>
    obtain ⟨n, -, -, rfl⟩ := Data.recogniseJson_eq_some h
    rfl
  | yaml =>
    obtain ⟨-, -, notes, rfl, -⟩ := Data.recogniseYaml_eq_some h
    rfl

namespace Document

/-- How a match at a line may come about. -/
inductive MatchesAt [Yaml.Reader] (structured : Bool) (number : Nat) (line : Text)
    (rest : List Text) : Match → Prop where
  /-- Nothing else is recognised, so a paragraph starts. -/
  | paragraph : MatchesAt structured number line rest (Paragraph.startingAt number line rest)
  /-- A quote starts. Its lines are split as those of a document. -/
  | quote {text : Text} (h : Quote.strip? line = some text) :
    MatchesAt structured number line rest
      ⟨.quote (Text.unlines (text :: Quote.body rest))
        (blocks structured (text :: Quote.body rest)).value, (Quote.body rest).length,
        (blocks structured (text :: Quote.body rest)).notes⟩
  /-- A list starts. -/
  | list {marker : Line.Marker} (h : Line.marker? line = some marker) :
    MatchesAt structured number line rest
      ⟨Listing.opened (Line.indent line) marker rest,
        (Listing.collect (Line.indent line) marker.ordered [Listing.item marker] rest).value.taken,
        (Listing.start marker).notes ++
          (Listing.collect (Line.indent line) marker.ordered [Listing.item marker] rest).notes⟩
  /-- A block starts that holds no others. -/
  | leaf {s : Shape} {m : Match} (hs : s ≠ .list) (h : s.recogniser number line rest = some m) :
    MatchesAt structured number line rest m

theorem matchesAt [Yaml.Reader] (structured : Bool) (number : Nat) (line : Text)
    (rest : List Text) :
    MatchesAt structured number line rest (matchAt structured number line rest) := by
  unfold matchAt
  cases hm : (Shape.priority structured).findSome? fun s =>
      recognise structured s number line rest with
  | none => exact .paragraph
  | some m =>
    obtain ⟨s, -, hs⟩ := List.exists_of_findSome?_eq_some hm
    by_cases hquote : s = .quote
    · subst hquote
      obtain ⟨text, htext, rfl⟩ := Option.map_eq_some_iff.mp hs
      exact .quote htext
    · rw [recognise_of_ne_quote structured hquote] at hs
      by_cases hlist : s = .list
      · subst hlist
        obtain ⟨marker, hmarker, rfl⟩ := Listing.recognise_eq_some hs
        exact .list hmarker
      · exact .leaf hlist hs

/-- What is left to show of a property of blocks, if the lines have the property `q` and the notes
the property `ok`: that it holds of each block when it is made. -/
structure YieldsWith [Yaml.Reader] (structured : Bool) (ok : List Note → Prop)
    (q : List Text → Prop) (p : Block → Prop) : Prop where
  /-- Parts of notes have the property of notes. -/
  parts : ∀ ns ms, ok (ns ++ ms) → ok ns ∧ ok ms
  /-- Later lines have the property of lines. -/
  tail : ∀ line rest, q (line :: rest) → q rest
  /-- The texts of quoted lines have the property of lines. -/
  quoted : ∀ line t rest, q (line :: rest) → Quote.strip? line = some t → q (t :: Quote.body rest)
  /-- The property holds of blocks that hold no others. -/
  leaf : ∀ s number line rest m, s ≠ .list → Text.allBlank line = false → q (line :: rest) →
    Shape.recogniser s number line rest = some m → ok m.notes → p m.block
  /-- The property holds of paragraphs. -/
  paragraph : ∀ number line rest, Text.allBlank line = false → q (line :: rest) →
    p (Paragraph.startingAt number line rest).block
  /-- The property holds of lists. -/
  list : ∀ base line rest m, Line.marker? line = some m → q (line :: rest) →
    p (Listing.opened base m rest)
  /-- The property holds of quotes. -/
  quote : ∀ lines, lines ≠ [] → q lines → ok (blocks structured lines).notes →
    p (.quote (Text.unlines lines) (blocks structured lines).value)

variable {structured : Bool} {ok : List Note → Prop} {q : List Text → Prop}

/-- A property that holds of each block when it is made holds of all blocks of a document, at all
depths. -/
theorem every_blocksFrom_with [Yaml.Reader] (h : YieldsWith structured ok q p) (number : Nat)
    (lines : List Text) (hq : q lines) (hok : ok (blocksFrom structured number lines).notes) :
    ∀ b ∈ (blocksFrom structured number lines).value, b.Every p := by
  induction hn : Quote.size lines using Nat.strongRecOn generalizing number lines with
  | ind n ih =>
    cases lines with
    | nil => simp
    | cons line rest =>
      have hqrest : q rest := h.tail line rest hq
      simp only [Quote.size_cons] at hn
      by_cases hline : Text.allBlank line = true
      · rw [blocksFrom_blank _ _ _ hline] at hok ⊢
        exact ih _ (by omega) _ _ hqrest hok rfl
      · rw [Bool.not_eq_true] at hline
        rw [blocksFrom_cons _ _ _ hline] at hok ⊢
        obtain ⟨hfirst, hrest⟩ := h.parts _ _ hok
        replace hrest := (h.parts _ _ hrest).1
        have hle := Quote.size_drop_le (matchAt structured number line rest).extra rest
        refine List.forall_mem_cons.mpr
          ⟨?_, ih _ (by omega) _ _ (Listing.holds_drop h.tail _ hqrest) hrest rfl⟩
        replace hfirst : ok (matchAt structured number line rest).notes := hfirst
        show (matchAt structured number line rest).block.Every p
        have hmatch := matchesAt structured number line rest
        generalize matchAt structured number line rest = m at hmatch hfirst ⊢
        cases hmatch with
        | paragraph => exact (Block.every_iff_of_isLeaf rfl).mpr (h.paragraph number line rest hline hq)
        | @quote text htext =>
          have hlt := Quote.length_lt_of_strip? htext
          have hbody := Quote.size_body_le rest
          have hinner : q (text :: Quote.body rest) := h.quoted line text rest hq htext
          refine ⟨h.quote (text :: Quote.body rest) (by simp) hinner hfirst,
            Block.allEvery_iff.mpr (ih _ ?_ 0 _ hinner hfirst rfl)⟩
          simp only [Quote.size_cons]
          omega
        | list hmarker => exact Listing.every_opened h.tail h.list (Line.indent line) hmarker hq
        | leaf hs hm =>
          exact (Block.every_iff_of_isLeaf (Shape.isLeaf_of_recogniser hs hm)).mpr
            (h.leaf _ number line rest m hs hline hq hm hfirst)

/-- What is left to show of a property of blocks, if the lines have the property `q`: that it holds of
each block when it is made. -/
structure Yields [Yaml.Reader] (structured : Bool) (q : List Text → Prop) (p : Block → Prop) :
    Prop where
  /-- Later lines have the property of lines. -/
  tail : ∀ line rest, q (line :: rest) → q rest
  /-- The texts of quoted lines have the property of lines. -/
  quoted : ∀ line t rest, q (line :: rest) → Quote.strip? line = some t → q (t :: Quote.body rest)
  /-- The property holds of blocks that hold no others. -/
  leaf : ∀ s number line rest m, s ≠ .list → Text.allBlank line = false → q (line :: rest) →
    Shape.recogniser s number line rest = some m → p m.block
  /-- The property holds of paragraphs. -/
  paragraph : ∀ number line rest, q (line :: rest) → p (Paragraph.startingAt number line rest).block
  /-- The property holds of lists. -/
  list : ∀ base line rest m, Line.marker? line = some m → q (line :: rest) →
    p (Listing.opened base m rest)
  /-- The property holds of quotes. -/
  quote : ∀ lines, lines ≠ [] → q lines →
    p (.quote (Text.unlines lines) (blocks structured lines).value)

/-- Nothing needs to be known of the notes. -/
theorem Yields.with [Yaml.Reader] (h : Yields structured q p) :
    YieldsWith structured (fun _ => True) q p where
  parts _ _ _ := ⟨trivial, trivial⟩
  tail := h.tail
  quoted := h.quoted
  leaf s number line rest m hs hline hq hm _ := h.leaf s number line rest m hs hline hq hm
  paragraph number line rest _ hq := h.paragraph number line rest hq
  list := h.list
  quote lines hne hq _ := h.quote lines hne hq

/-- A property that holds of each block whatever is noted. -/
theorem every_blocksFrom [Yaml.Reader] (h : Yields structured q p) (number : Nat)
    (lines : List Text) (hq : q lines) : ∀ b ∈ (blocksFrom structured number lines).value, b.Every p :=
  every_blocksFrom_with h.with number lines hq trivial

/-- The same of the blocks of a text. -/
theorem every_tokenize [Yaml.Reader] {c : Config} (h : Yields c.structuredData (fun _ => True) p) (t : Text)
    (s : References) : ∀ b ∈ (tokenize c t s).1.value, b.Every p := by
  unfold tokenize
  split
  · intro b hb
    cases hb
  · exact every_blocksFrom h 0 _ trivial

end Document

end Markdown
