import Markdown.Processor
import Markdown.Proofs.Lines
import Markdown.Proofs.Nesting

/-!
# Rendering does not depend on what is active around it

The renderer splits the text of a quote that has no blocks, and it does so by the configuration that
is active at that time. In the blocks of a document such quotes are blank at every depth, so there is
nothing to split: splitting first and rendering later, wherever that may be, gives the same report as
converting in one go.
-/

namespace Markdown

/-- A quote without blocks has a blank text. -/
def Block.IsFilled : Block → Prop
  | .quote content children => children = [] → Text.allBlank content = true
  | _ => True

namespace Document

variable {structured : Bool} {number : Nat} {lines : List Text}

theorem blocksFrom_of_allBlank [Yaml.Reader] (h : ∀ l ∈ lines, Text.allBlank l = true) :
    blocksFrom structured number lines = pure [] := by
  induction lines generalizing number with
  | nil => simp
  | cons line rest ih =>
    rw [blocksFrom_blank _ _ _ (h line List.mem_cons_self)]
    exact ih fun l hl => h l (List.mem_cons_of_mem line hl)

/-- Only blank lines have no blocks. -/
theorem allBlank_of_blocksFrom_eq_nil [Yaml.Reader]
    (h : (blocksFrom structured number lines).value = []) :
    ∀ l ∈ lines, Text.allBlank l = true := by
  induction lines generalizing number with
  | nil => simp
  | cons line rest ih =>
    by_cases hline : Text.allBlank line = true
    · rw [blocksFrom_blank _ _ _ hline] at h
      exact List.forall_mem_cons.mpr ⟨hline, ih h⟩
    · rw [blocksFrom_cons _ _ _ (by simpa using hline)] at h
      cases h

theorem yields_isFilled [Yaml.Reader] (structured : Bool) :
    Yields structured (fun _ => True) Block.IsFilled where
  tail _ _ _ := trivial
  quoted _ _ _ _ _ := trivial
  leaf s number line rest m hs _ _ h := by
    have hleaf := Shape.isLeaf_of_recogniser hs h
    cases hb : m.block with
    | quote => simp [hb, Block.isLeaf] at hleaf
    | _ => trivial
  paragraph _ _ _ _ := trivial
  list _ _ _ _ _ _ := trivial
  quote lines _ _ hnil := Text.allBlank_unlines (allBlank_of_blocksFrom_eq_nil hnil)

/-- In a document only blank quotes have no blocks, at all depths. -/
theorem isFilled_tokenizeValue (c : Config) (v : Json) (s : References) :
    ∀ b ∈ (tokenizeValue c v s).1.value, b.Every Block.IsFilled := by
  unfold tokenizeValue
  split
  · next t => exact every_tokenize (yields_isFilled c.structuredData) t s
  · split <;> intro b hb <;> cases hb

end Document

namespace Rendering

variable {e : Rendering}

/-- A blank quote shows nothing. -/
theorem quotedHtml_of_allBlank [Yaml.Reader] {t : Text} (h : Text.allBlank t = true) :
    e.quotedHtml t = pure [] := by
  have hblocks : Document.blocks e.structuredData (Text.lines t) = pure [] :=
    Document.blocksFrom_of_allBlank fun l hl => Text.allBlank_of_mem_lines h hl
  rw [quotedHtml, hblocks, pure_bind, blocksHtml]

/-! ### What the renderer reads

Beside the block itself, rendering reads the switch for data only to split quotes without blocks. -/

section

variable {quoted quoted' : Text → Report Text} (structured : Bool)

theorem cellsHtml_congr (name : String) (alignments : List (Option Alignment)) (cells : List Text) :
    { e with structuredData := structured }.cellsHtml name alignments cells =
      e.cellsHtml name alignments cells := by
  induction cells generalizing alignments with
  | nil => rw [cellsHtml, cellsHtml]
  | cons cell cells ih =>
    rw [cellsHtml, cellsHtml, ih]
    rfl

theorem tableHtml_congr (headers : List Text) (alignments : List (Option Alignment))
    (rows : List (List Text)) :
    { e with structuredData := structured }.tableHtml headers alignments rows =
      e.tableHtml headers alignments rows := by
  simp only [tableHtml, rowsHtml, cellsHtml_congr]

mutual

theorem blockHtml_congr (hquoted : ∀ t, Text.allBlank t = true → quoted' t = quoted t) :
    (b : Block) → b.Every Block.IsFilled →
      { e with structuredData := structured }.blockHtml quoted' b = e.blockHtml quoted b
  | .quote content children, hb => by
    have hchildren := blocksHtml_congr hquoted children hb.2
    rw [blockHtml, blockHtml, hchildren]
    split
    · next hempty =>
      have hblank := hb.1 (by simp at hempty; exact hempty.1)
      rw [hquoted content hblank]
    · rfl
  | .list ordered start items, hb => by
    have hitems := itemsHtml_congr hquoted items hb.2
    rw [blockHtml, blockHtml, hitems]
  | .heading _ _, _ => by rw [blockHtml, blockHtml]; rfl
  | .paragraph _, _ => by rw [blockHtml, blockHtml]; rfl
  | .code _ _ _, _ => by rw [blockHtml, blockHtml]; rfl
  | .table _ _ _, _ => by rw [blockHtml, blockHtml, tableHtml_congr]
  | .rule, _ => by rw [blockHtml, blockHtml]
  | .definitions _, _ => by rw [blockHtml, blockHtml]; rfl
  | .footnote _ _, _ => by rw [blockHtml, blockHtml]
  | .foreign _, _ => by rw [blockHtml, blockHtml]

theorem blocksHtml_congr (hquoted : ∀ t, Text.allBlank t = true → quoted' t = quoted t) :
    (bs : List Block) → Block.AllEvery Block.IsFilled bs →
      { e with structuredData := structured }.blocksHtml quoted' bs = e.blocksHtml quoted bs
  | [], _ => by rw [blocksHtml, blocksHtml]
  | b :: r, hbs => by
    rw [blocksHtml, blocksHtml, blockHtml_congr hquoted b hbs.1, blocksHtml_congr hquoted r hbs.2]

theorem itemHtml_congr (hquoted : ∀ t, Text.allBlank t = true → quoted' t = quoted t) :
    (i : Item) → i.Every Block.IsFilled →
      { e with structuredData := structured }.itemHtml quoted' i = e.itemHtml quoted i
  | .mk content checked children, hi => by
    rw [itemHtml, itemHtml, blocksHtml_congr hquoted children hi]
    rfl

theorem itemsHtml_congr (hquoted : ∀ t, Text.allBlank t = true → quoted' t = quoted t) :
    (items : List Item) → Item.AllEvery Block.IsFilled items →
      { e with structuredData := structured }.itemsHtml quoted' items = e.itemsHtml quoted items
  | [], _ => by rw [itemsHtml, itemsHtml]
  | i :: r, hitems => by
    rw [itemsHtml, itemsHtml, itemHtml_congr hquoted i hitems.1, itemsHtml_congr hquoted r hitems.2]

end

end

/-- The renderer splits quoted lines without blocks at every depth, with the one function that it uses
at the outermost. -/
theorem quotedHtml_eq (content : Text) :
    e.quotedHtml content = (do
      let blocks ← Document.blocks e.structuredData (Text.lines content)
      e.blocksHtml e.quotedHtml blocks) := by
  have hfilled : Block.AllEvery Block.IsFilled
      (Document.blocks e.structuredData (Text.lines content)).value :=
    Block.allEvery_iff.mpr
      (Document.every_blocksFrom (Document.yields_isFilled e.structuredData) 0 _ trivial)
  have hblank : ∀ t, Text.allBlank t = true → e.quotedHtml t = pure [] :=
    fun t ht => quotedHtml_of_allBlank ht
  exact Report.bind_congr (blocksHtml_congr e.structuredData hblank _ hfilled).symm

/-- The HTML of the blocks of a document does not depend on the switch for data. -/
theorem render_congr (structured : Bool) {bs : List Block}
    (h : ∀ b ∈ bs, b.Every Block.IsFilled) :
    { e with structuredData := structured }.render bs = e.render bs := by
  let e' : Rendering := { e with structuredData := structured }
  have hblank : ∀ t, Text.allBlank t = true → e'.quotedHtml t = e.quotedHtml t := by
    intro t ht
    rw [quotedHtml_of_allBlank ht, quotedHtml_of_allBlank ht]
  have hblocks : bs.mapM e'.html = bs.mapM e.html := by
    induction bs with
    | nil => rfl
    | cons b bs ih =>
      obtain ⟨hb, hbs⟩ := List.forall_mem_cons.mp h
      have hfirst : e'.html b = e.html b := blockHtml_congr structured hblank b hb
      rw [List.mapM_cons, List.mapM_cons, hfirst, ih hbs]
  have hfootnotes : e'.footnotesHtml = e.footnotesHtml := rfl
  show e'.render bs = e.render bs
  rw [render, render, hblocks, hfootnotes]

end Rendering

namespace Processor

/-- Splitting a value first and rendering its blocks later, whatever is active around either, gives
the report of converting it in one go: the HTML and all that is noted. -/
theorem render_parse (p : Processor) (splitting rendering converting : Scope) (v : Json) :
    (do
      let bs ← (p.parse splitting v).1.1
      p.render rendering bs (p.parse splitting v).1.2) = (p.convert converting v).1 := by
  refine Report.bind_congr ?_
  exact Rendering.render_congr (e := p.config.rendering p.registry _) rendering.active.structuredData
    (Document.isFilled_tokenizeValue p.config v .empty)

end Processor

end Markdown
