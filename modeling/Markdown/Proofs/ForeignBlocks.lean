import Markdown.Proofs.Faults
import Markdown.Proofs.Opaque

/-!
# Values that are no blocks

Blocks made by hand may hold values that are no blocks, at any depth. Rendering notes a fault for each of
them, in the order in which a reader of the document comes to them, and no such fault for anything else:
texts of all kinds, code, footnotes, and quoted lines that are split late have other faults at most
(`Rendering.foreignValues_render`). So if nothing else stops a rendering, the first of these values does
(`Rendering.foreignBlock_iff`).
-/

namespace Markdown

/-- Whether a fault is that of a text: a number with too many digits, or YAML that is broken off. -/
def Fault.isOfText : Fault → Bool
  | .longNumeral _ | .yaml _ => true
  | _ => false

/-- Whether a fault is a value that is no block. -/
def Fault.isForeign : Fault → Bool
  | .foreignBlock _ => true
  | _ => false

theorem Fault.isForeign_of_isOfText {f : Fault} (h : f.isOfText = true) : f.isForeign = false := by
  cases f <;> first | rfl | cases h

/-! ### Faults of splitting -/

namespace Listing

theorem failsWithin_start (m : Line.Marker) : (start m).FailsWithin (·.isOfText) := by
  unfold start
  split
  · exact Report.failsWithin_pure 1
  · dsimp only
    split
    · exact Report.failsWithin_fail_bind (by rfl) _
    · exact Report.failsWithin_pure _

end Listing

namespace Document

theorem failsWithin_blocksFrom (structured : Bool) (number : Nat) (lines : List Text) :
    (blocksFrom structured number lines).FailsWithin (·.isOfText) := by
  induction hk : Quote.size lines using Nat.strongRecOn generalizing number lines with
  | ind k ih =>
    cases lines with
    | nil => simpa using Report.failsWithin_pure []
    | cons line rest =>
      simp only [Quote.size_cons] at hk
      by_cases hblank : Text.allBlank line = true
      · rw [blocksFrom_blank _ _ _ hblank]
        exact ih _ (by omega) _ _ rfl
      · have hle := Quote.size_drop_le (matchAt structured number line rest).extra rest
        rw [blocksFrom_cons _ _ _ (by simpa using hblank)]
        refine Report.FailsWithin.bind ?_ fun _ =>
          (ih _ (by omega) _ _ rfl).bind fun _ => Report.failsWithin_pure _
        have hmatch := matchesAt structured number line rest
        generalize matchAt structured number line rest = m at hmatch ⊢
        cases hmatch with
        | paragraph => exact (Paragraph.isClean_continuation (number + 1) rest).failsWithin
        | @quote text htext =>
          -- A quote has the faults of the lines that it quotes.
          have hlt := Quote.length_lt_of_strip? htext
          have hbody := Quote.size_body_le rest
          exact ih (Quote.size (text :: Quote.body rest)) (by rw [Quote.size_cons]; omega) 0 _ rfl
        | @list marker hmarker =>
          intro f hf
          rcases List.mem_append.mp hf with hf | hf
          · exact Listing.failsWithin_start marker f hf
          · exact Listing.failsWithin_collect _ _ _ (fun _ _ m _ => Listing.failsWithin_start m) f hf
        | leaf hs hm =>
          intro f hf
          obtain ⟨content, g, -, -, rfl⟩ := (Shape.failed_mem_notes_iff hs hm).mp hf
          rfl

end Document

/-! ### Blocks in the order of a document -/

mutual

/-- A block and the blocks inside it, in the order of a document. -/
def Block.preorder : Block → List Block
  | .list ordered start items => .list ordered start items :: Item.allPreorder items
  | .quote content children => .quote content children :: Block.allPreorder children
  | b => [b]

/-- Some blocks and the blocks inside them, in the order of a document. -/
def Block.allPreorder : List Block → List Block
  | [] => []
  | b :: r => b.preorder ++ Block.allPreorder r

/-- The blocks inside an entry. -/
def Item.preorder : Item → List Block
  | .mk _ _ children => Block.allPreorder children

/-- The blocks inside some entries. -/
def Item.allPreorder : List Item → List Block
  | [] => []
  | i :: r => i.preorder ++ Item.allPreorder r

end

/-- The value that a block is, if it is no block. -/
def Block.foreign? : Block → Option Foreign
  | .foreign value => some value
  | _ => none

/-- The values among some blocks that are no blocks, at all depths, in the order of a document. -/
def Block.foreignValues (bs : List Block) : List Foreign :=
  (Block.allPreorder bs).filterMap Block.foreign?

mutual

theorem Block.every_iff {p : Block → Prop} : (b : Block) → (b.Every p ↔ ∀ c ∈ b.preorder, p c)
  | .list _ _ items => by
    rw [Block.Every, Block.preorder, List.forall_mem_cons, Item.allEvery_iff_preorder items]
  | .quote _ children => by
    rw [Block.Every, Block.preorder, List.forall_mem_cons, Block.allEvery_iff_preorder children]
  | .heading .. | .paragraph _ | .code .. | .table .. | .rule | .definitions _ | .footnote ..
  | .foreign _ => by simp [Block.Every, Block.preorder]

theorem Block.allEvery_iff_preorder {p : Block → Prop} :
    (bs : List Block) → (Block.AllEvery p bs ↔ ∀ c ∈ Block.allPreorder bs, p c)
  | [] => by simp [Block.AllEvery, Block.allPreorder]
  | b :: r => by
    rw [Block.AllEvery, Block.allPreorder, List.forall_mem_append, Block.every_iff b,
      Block.allEvery_iff_preorder r]

theorem Item.every_iff {p : Block → Prop} : (i : Item) → (i.Every p ↔ ∀ c ∈ i.preorder, p c)
  | .mk _ _ children => by
    rw [Item.Every, Item.preorder, Block.allEvery_iff_preorder children]

theorem Item.allEvery_iff_preorder {p : Block → Prop} :
    (items : List Item) → (Item.AllEvery p items ↔ ∀ c ∈ Item.allPreorder items, p c)
  | [] => by simp [Item.AllEvery, Item.allPreorder]
  | i :: r => by
    rw [Item.AllEvery, Item.allPreorder, List.forall_mem_append, Item.every_iff i,
      Item.allEvery_iff_preorder r]

end

/-- The blocks of a text are blocks, at all depths. -/
theorem Document.foreignValues_blocks (structured : Bool) (t : Text) :
    Block.foreignValues (blocks structured (Text.lines t)).value = [] := by
  have hfits : t.Fits t.length (t.length + 1) :=
    ⟨Text.runsWithin_of_length_le (Nat.le_refl _), Nat.lt_succ_self _⟩
  have hrenderable := every_blocksFrom (yields_isRenderable structured _ _) 0 _
    (LinesFit.of_text hfits)
  have hall := (Block.allEvery_iff_preorder _).mp (Block.allEvery_iff.mpr hrenderable)
  refine List.filterMap_eq_nil_iff.mpr fun b hb => ?_
  have hnative := (hall b hb).native
  cases b with
  | foreign value => exact absurd rfl (hnative value)
  | _ => rfl

/-! ### Reports with values that are no blocks -/

/-- The value that is noted to be no block. -/
def Note.foreign? : Note → Option Foreign
  | .failed (.foreignBlock value) => some value
  | _ => none

namespace Report

variable {α β : Type}

/-- The values that are noted to be no blocks, in order. -/
def foreignValues (x : Report α) : List Foreign :=
  x.notes.filterMap Note.foreign?

@[simp] theorem foreignValues_pure (a : α) : (pure a : Report α).foreignValues = [] := rfl

@[simp] theorem foreignValues_bind (x : Report α) (f : α → Report β) :
    (x >>= f).foreignValues = x.foreignValues ++ (f x.value).foreignValues :=
  List.filterMap_append

@[simp] theorem foreignValues_map (f : α → β) (x : Report α) :
    (f <$> x).foreignValues = x.foreignValues := by
  rw [foreignValues, notes_map, foreignValues]

/-- Faults of texts are no such values. -/
theorem FailsWithin.not_foreign {x : Report α} (h : x.FailsWithin (·.isOfText)) :
    x.FailsWithin (·.isForeign = false) :=
  h.mono fun _ => Fault.isForeign_of_isOfText

theorem FailsWithin.foreignValues_eq {x : Report α} (h : x.FailsWithin (·.isForeign = false)) :
    x.foreignValues = [] := by
  refine List.filterMap_eq_nil_iff.mpr fun n hn => ?_
  cases n with
  | failed f =>
    have hf := h f hn
    cases f with
    | foreignBlock value => cases hf
    | _ => rfl
  | _ => rfl

/-- If the first fault is a value that is no block, it is the first such value. -/
theorem answer_eq_foreignBlock_iff {x : Report α} {value : Foreign} :
    x.answer = .error (.foreignBlock value) ↔
      x.foreignValues.head? = some value ∧ ∀ f, x.answer = .error f → f.isForeign = true := by
  have hanswer : ∀ f, x.answer = .error f ↔ firstFault x.notes = some f := by
    intro f
    unfold answer
    cases firstFault x.notes <;> simp
  simp only [hanswer, foreignValues]
  induction x.notes with
  | nil => simp [firstFault]
  | cons n ns ih =>
    cases n with
    | failed f =>
      have hfirst : firstFault (.failed f :: ns) = some f := rfl
      rw [hfirst]
      cases f with
      | foreignBlock value => simp [Note.foreign?, Fault.isForeign]
      | _ => simp [Fault.isForeign]
    | _ => exact ih

end Report

/-! ### Rendering -/

namespace Rendering

variable {e : Rendering}

/-- A renderer whose highlighters never note that a value is no block. -/
def KnowsBlocks (e : Rendering) : Prop :=
  ∀ h ∈ e.registry, ∀ code, (h.2 none code).FailsWithin (·.isForeign = false)

theorem failsWithin_inlineHtml (e : Rendering) (t : Text) :
    (e.inlineHtml t).FailsWithin (·.isOfText) := by
  have hrestore : ∀ stash u, (Inline.restoreCode stash u).FailsWithin (·.isOfText) := by
    intro stash u
    unfold Inline.restoreCode
    split
    · exact Report.failsWithin_pure _
    · refine (Report.failsWithin_mapM fun p _ f hf => ?_).bind fun _ => Report.failsWithin_pure _
      obtain ⟨n, rfl⟩ := Inline.eq_longNumeral_of_failed hf
      rfl
  exact (hrestore _ _).bind fun _ => Report.failsWithin_pure _

/-- Blocks that hold no others and are blocks. -/
theorem failsWithin_blockHtml_of_isLeaf (he : e.KnowsBlocks) (quoted : Text → Report Text) {b : Block}
    (hleaf : b.isLeaf = true) (hblock : b.foreign? = none) :
    (e.blockHtml quoted b).FailsWithin (·.isForeign = false) := by
  cases b with
  | heading level content =>
    rw [blockHtml]
    exact ((e.failsWithin_inlineHtml content).bind fun _ => Report.failsWithin_pure _).not_foreign
  | paragraph content =>
    rw [blockHtml]
    exact (((e.failsWithin_inlineHtml content).map _).map _).not_foreign
  | code language content detected =>
    rw [blockHtml]
    exact failsWithin_codeHtml he language content detected
  | list => cases hleaf
  | table headers alignments rows =>
    rw [blockHtml]
    exact (failsWithin_tableHtml alignments fun t _ => e.failsWithin_inlineHtml t).not_foreign
  | quote => cases hleaf
  | rule =>
    rw [blockHtml]
    exact Report.failsWithin_pure _
  | definitions items =>
    rw [blockHtml]
    exact (failsWithin_definitionsHtml fun t _ => e.failsWithin_inlineHtml t).not_foreign
  | footnote =>
    rw [blockHtml]
    exact Report.failsWithin_pure _
  | foreign => cases hblock

section

variable {quoted : Text → Report Text}

mutual

theorem foreignValues_blockHtml (he : e.KnowsBlocks) (hquoted : ∀ t, (quoted t).foreignValues = []) :
    (b : Block) → (e.blockHtml quoted b).foreignValues = b.preorder.filterMap Block.foreign?
  | .list ordered start items => by
    rw [blockHtml, Report.foreignValues_bind, foreignValues_itemsHtml he hquoted items,
      Report.foreignValues_pure, List.append_nil, Block.preorder]
    rfl
  | .quote content children => by
    have hchildren := foreignValues_blocksHtml he hquoted children
    rw [blockHtml, Block.preorder]
    split
    · next hempty =>
      obtain rfl : children = [] := by simp at hempty; exact hempty.1
      rw [Report.foreignValues_bind, hquoted content, Block.allPreorder]
      rfl
    · rw [Report.foreignValues_bind, hchildren, Report.foreignValues_pure, List.append_nil]
      rfl
  | .foreign value => by
    rw [blockHtml, Block.preorder]
    · rfl
    all_goals simp
  | .heading .. | .paragraph _ | .code .. | .table .. | .rule | .definitions _ | .footnote .. => by
    rw [(failsWithin_blockHtml_of_isLeaf he quoted rfl rfl).foreignValues_eq]
    simp [Block.preorder, Block.foreign?]

theorem foreignValues_blocksHtml (he : e.KnowsBlocks) (hquoted : ∀ t, (quoted t).foreignValues = []) :
    (bs : List Block) → (e.blocksHtml quoted bs).foreignValues = Block.foreignValues bs
  | [] => by
    rw [blocksHtml, Block.foreignValues, Block.allPreorder]
    rfl
  | b :: r => by
    rw [blocksHtml, Report.foreignValues_bind, Report.foreignValues_bind,
      foreignValues_blockHtml he hquoted b, foreignValues_blocksHtml he hquoted r,
      Report.foreignValues_pure, List.append_nil, Block.foreignValues, Block.foreignValues,
      Block.allPreorder, List.filterMap_append]

theorem foreignValues_itemHtml (he : e.KnowsBlocks) (hquoted : ∀ t, (quoted t).foreignValues = []) :
    (i : Item) → (e.itemHtml quoted i).foreignValues = i.preorder.filterMap Block.foreign?
  | .mk content checked children => by
    have hcontent : (e.linesHtml content).foreignValues = [] :=
      ((e.failsWithin_inlineHtml content).map _).not_foreign.foreignValues_eq
    rw [itemHtml, Report.foreignValues_bind, Report.foreignValues_bind, hcontent,
      foreignValues_blocksHtml he hquoted children, Report.foreignValues_pure, List.append_nil,
      Item.preorder]
    rfl

theorem foreignValues_itemsHtml (he : e.KnowsBlocks) (hquoted : ∀ t, (quoted t).foreignValues = []) :
    (items : List Item) → (e.itemsHtml quoted items).foreignValues =
      (Item.allPreorder items).filterMap Block.foreign?
  | [] => by
    rw [itemsHtml, Item.allPreorder]
    rfl
  | i :: r => by
    rw [itemsHtml, Report.foreignValues_bind, Report.foreignValues_bind,
      foreignValues_itemHtml he hquoted i, foreignValues_itemsHtml he hquoted r,
      Report.foreignValues_pure, List.append_nil, Item.allPreorder, List.filterMap_append]

end

end

/-- Quoted lines that are split late hold blocks only. -/
theorem foreignValues_quotedHtml (he : e.KnowsBlocks) (content : Text) :
    (e.quotedHtml content).foreignValues = [] := by
  have hsplit := Document.failsWithin_blocksFrom e.structuredData 0 (Text.lines content)
  rw [quotedHtml, Report.foreignValues_bind, foreignValues_blocksHtml he fun _ => rfl,
    Document.foreignValues_blocks, List.append_nil]
  exact hsplit.not_foreign.foreignValues_eq

theorem foreignValues_footnotesHtml (e : Rendering) : e.footnotesHtml.foreignValues = [] :=
  (failsWithin_footnotesHtml fun f _ =>
    e.failsWithin_inlineHtml f.2.content).not_foreign.foreignValues_eq

/-- Rendering notes the values that are no blocks, all of them and nothing else, in the order of the
document. -/
theorem foreignValues_render (he : e.KnowsBlocks) (bs : List Block) :
    (e.render bs).foreignValues = Block.foreignValues bs := by
  have hblocks : (bs.mapM e.html).foreignValues = Block.foreignValues bs := by
    induction bs with
    | nil => rfl
    | cons b r ih =>
      have hfirst : (e.html b).foreignValues = b.preorder.filterMap Block.foreign? :=
        foreignValues_blockHtml he (foreignValues_quotedHtml he) b
      rw [List.mapM_cons, Report.foreignValues_bind, Report.foreignValues_bind, hfirst, ih,
        Report.foreignValues_pure, List.append_nil, Block.foreignValues, Block.foreignValues,
        Block.allPreorder, List.filterMap_append]
  have hnotes := foreignValues_footnotesHtml e
  rw [render, Report.foreignValues_bind, hblocks]
  dsimp only
  split <;> simp [hnotes]

/-- **Values that are no blocks are the only cause of their fault.** A rendering that nothing else stops
answers with this fault exactly if there is such a value among the blocks, at any depth, and then with the
first one in the order of the document. Headings, paragraphs, code, tables, definitions and footnotes have
no such fault, nor have quotes that hold a text only, nor has the section of footnotes. -/
theorem foreignBlock_iff (e : Rendering) (he : e.KnowsBlocks) (bs : List Block) :
    (∀ value, (e.render bs).answer = .error (.foreignBlock value) ↔
      (Block.allPreorder bs).findSome? Block.foreign? = some value ∧
        ∀ f, (e.render bs).answer = .error f → f.isForeign = true) ∧
    (∀ b : Block, b.isLeaf = true → b.foreign? = none → (e.html b).foreignValues = []) ∧
    (∀ content, (e.html (.quote content [])).foreignValues = []) ∧
    e.footnotesHtml.foreignValues = [] := by
  refine ⟨fun value => ?_, fun b hleaf hblock => ?_, fun content => ?_, ?_⟩
  · rw [Report.answer_eq_foreignBlock_iff, foreignValues_render he, Block.foreignValues,
      List.head?_filterMap]
  · exact (failsWithin_blockHtml_of_isLeaf he _ hleaf hblock).foreignValues_eq
  · exact foreignValues_blockHtml he (foreignValues_quotedHtml he) (.quote content [])
  · exact foreignValues_footnotesHtml e

/-- A value inside a quote inside an entry comes before one of the same type behind the list. -/
theorem foreignBlock_iff_nested :
    let e : Rendering := ⟨.empty, true, true, true, true, .builtin⟩
    let inner : Foreign := ⟨['i', 'n', 't'], 0⟩
    let bs : List Block := [.paragraph ['a'], .quote ['>', 'b'] [],
      .list false 1 [.mk ['c'] none [.quote ['d'] [.rule, .foreign inner]]],
      .foreign ⟨['i', 'n', 't'], 1⟩]
    e.KnowsBlocks ∧ (e.render bs).answer = .error (.foreignBlock inner) := by
  intro e inner bs
  have he : e.KnowsBlocks := fun h hh code => (Highlight.isClean_builtin hh code).failsWithin
  have hfirst : (Block.allPreorder bs).findSome? Block.foreign? = some inner := by decide
  have hanswer : (match (e.render bs).answer with
      | .error f => f.isForeign
      | .ok _ => true) = true := by decide +kernel
  have hother : ∀ f, (e.render bs).answer = .error f → f.isForeign = true := by
    intro f hf
    rwa [hf] at hanswer
  exact ⟨he, ((foreignBlock_iff e he bs).1 inner).mpr ⟨hfirst, hother⟩⟩

end Rendering

end Markdown
