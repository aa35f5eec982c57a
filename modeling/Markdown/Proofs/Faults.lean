import Markdown.Proofs.Definitions
import Markdown.Proofs.Spans

/-!
# When a text has no HTML

Converting a text gives no answer in one case only, apart from numbers of more than 4300 digits: unfenced
data at which the YAML reader breaks off instead of calling it malformed. All other texts have HTML,
however broken their Markdown may be. Nothing is assumed of the reader.
-/

namespace Markdown

open Text

/-! ### Highlighting -/

namespace Highlight

/-- Without a predicate for nested JSON the built-in highlighters have no faults. -/
theorem isClean_builtin {e : Text × Highlighter} (he : e ∈ Registry.builtin) (code : Text) :
    (e.2 none code).IsClean := by
  obtain ⟨spans, hspans, -⟩ := spans_builtin e he code
  rw [hspans]
  exact Report.isClean_pure _

/-- A registry has the faults of its highlighters only. -/
theorem failsWithin_highlight {q : Fault → Prop} {r : Registry}
    (hr : ∀ e ∈ r, ∀ code, (e.2 none code).FailsWithin q) (language : Option Text) (swatches : Bool)
    (code : Text) : (r.highlight language none swatches code).FailsWithin q := by
  unfold Registry.highlight
  split
  · exact Report.failsWithin_pure []
  · dsimp only
    split
    · next h hfind =>
      obtain ⟨e, he, rfl⟩ := Option.map_eq_some_iff.mp hfind
      exact (hr e (List.mem_of_find?_eq_some he) code).bind fun _ => Report.failsWithin_pure _
    · exact (Report.isClean_log _).failsWithin.bind fun _ => Report.failsWithin_pure _

theorem isClean_highlight (language : Option Text) (swatches : Bool) (code : Text) :
    (Registry.builtin.highlight language none swatches code).IsClean :=
  Report.isClean_iff_failsWithin.mpr
    (failsWithin_highlight (fun _ he code => isClean_builtin he code) language swatches code)

end Highlight

/-! ### Rendering -/

namespace Rendering

variable {e : Rendering}

/-! The parts of a document have the faults of their inline texts and of their code only. -/

section

variable {q : Fault → Prop}

theorem failsWithin_codeHtml (h : ∀ entry ∈ e.registry, ∀ code, (entry.2 none code).FailsWithin q)
    (language content : Text) (detected : Bool) :
    (e.codeHtml language content detected).FailsWithin q := by
  unfold codeHtml
  dsimp only
  split
  · exact (Highlight.failsWithin_highlight h _ _ _).bind fun _ => Report.failsWithin_pure _
  · exact Report.failsWithin_pure _

theorem failsWithin_cellsHtml (name : String) (alignments : List (Option Alignment))
    {cells : List Text} (h : ∀ t ∈ cells, (e.inlineHtml t).FailsWithin q) :
    (e.cellsHtml name alignments cells).FailsWithin q := by
  induction cells generalizing alignments with
  | nil =>
    rw [cellsHtml]
    exact Report.failsWithin_pure []
  | cons cell cells ih =>
    obtain ⟨hcell, hcells⟩ := List.forall_mem_cons.mp h
    rw [cellsHtml]
    exact hcell.bind fun _ => (ih alignments.tail hcells).bind fun _ => Report.failsWithin_pure _

theorem failsWithin_tableHtml (alignments : List (Option Alignment)) {headers : List Text}
    {rows : List (List Text)} (h : ∀ t ∈ headers ++ rows.flatten, (e.inlineHtml t).FailsWithin q) :
    (e.tableHtml headers alignments rows).FailsWithin q := by
  obtain ⟨hheaders, hcells⟩ := List.forall_mem_append.mp h
  have hrows : ∀ row ∈ rows, ∀ t ∈ row, (e.inlineHtml t).FailsWithin q := fun row hrow t ht =>
    hcells t (List.mem_flatten.mpr ⟨row, hrow, ht⟩)
  refine (failsWithin_cellsHtml "th" alignments hheaders).bind fun _ =>
    Report.FailsWithin.bind ?_ fun _ => Report.failsWithin_pure _
  refine (Report.failsWithin_mapM fun row hrow => ?_).bind fun _ => Report.failsWithin_pure _
  exact (failsWithin_cellsHtml "td" alignments (hrows row hrow)).bind fun _ =>
    Report.failsWithin_pure _

theorem failsWithin_definitionsHtml {items : List Definition}
    (h : ∀ t ∈ items.flatMap fun d => d.term :: d.meanings, (e.inlineHtml t).FailsWithin q) :
    (e.definitionsHtml items).FailsWithin q := by
  refine (Report.failsWithin_mapM fun d hd => ?_).bind fun _ => Report.failsWithin_pure _
  have htexts : ∀ t ∈ d.term :: d.meanings, (e.inlineHtml t).FailsWithin q := fun t ht =>
    h t (List.mem_flatMap.mpr ⟨d, hd, ht⟩)
  obtain ⟨hterm, hmeanings⟩ := List.forall_mem_cons.mp htexts
  refine hterm.bind fun _ => ?_
  refine (Report.failsWithin_mapM fun m hm => ?_).bind fun _ => Report.failsWithin_pure _
  exact (hmeanings m hm).map _

theorem failsWithin_footnotesHtml
    (h : ∀ f ∈ e.references.notes, (e.inlineHtml f.2.content).FailsWithin q) :
    e.footnotesHtml.FailsWithin q := by
  refine (Report.isClean_log _).failsWithin.bind fun _ => ?_
  refine (Report.failsWithin_mapM fun f hf => ?_).bind fun _ => Report.failsWithin_pure _
  obtain ⟨entry, hentry, rfl⟩ := List.mem_map.mp (List.mem_mergeSort.mp hf)
  exact (h entry hentry).bind fun _ => Report.failsWithin_pure _

end

/-- A renderer with the built-in highlighters, for which texts with a property are no fault. -/
structure IsSafe (e : Rendering) (p : Text → Prop) : Prop where
  /-- Inline texts with the property have HTML. -/
  inline : ∀ t, p t → (e.inlineHtml t).IsClean
  /-- The highlighters are the built-in ones. -/
  registry : e.registry = .builtin

variable {p : Text → Prop}

theorem isClean_linesHtml (he : e.IsSafe p) {t : Text} (ht : p t) : (e.linesHtml t).IsClean :=
  Report.isClean_map_iff.mpr (he.inline t ht)

mutual

theorem isClean_blockHtml [Yaml.Reader] (he : e.IsSafe p) :
    (b : Block) → b.Every (Block.IsRenderable p) → (e.blockHtml e.quotedHtml b).IsClean
  | .heading _ content, h => by
    rw [blockHtml]
    exact (he.inline content (h.texts content (by simp [Block.texts]))).bind fun _ =>
      Report.isClean_pure _
  | .paragraph content, h => by
    rw [blockHtml]
    exact Report.isClean_map_iff.mpr
      (isClean_linesHtml he (h.texts content (by simp [Block.texts])))
  | .code language content detected, _ => by
    rw [blockHtml]
    exact failsWithin_codeHtml (by rw [he.registry]; exact fun _ => Highlight.isClean_builtin)
      language content detected
  | .list ordered start items, h => by
    rw [blockHtml]
    have htexts : ∀ i ∈ items, p i.content := fun i hi =>
      h.1.texts i.content (List.mem_map.mpr ⟨i, hi, rfl⟩)
    exact (isClean_itemsHtml he items htexts h.2).bind fun _ => Report.isClean_pure _
  | .table headers alignments rows, h => by
    rw [blockHtml]
    exact failsWithin_tableHtml alignments fun t ht => he.inline t (h.texts t ht)
  | .quote content children, h => by
    rw [blockHtml]
    split
    · next hempty =>
      simp only [Bool.and_eq_true, List.isEmpty_iff] at hempty
      rw [quotedHtml_of_allBlank (h.1.filled hempty.1)]
      exact (Report.isClean_pure []).bind fun _ => Report.isClean_pure _
    · exact (isClean_blocksHtml he children h.2).bind fun _ => Report.isClean_pure _
  | .rule, _ => by
    rw [blockHtml]
    exact Report.isClean_pure _
  | .definitions items, h => by
    rw [blockHtml]
    exact failsWithin_definitionsHtml fun t ht => he.inline t (h.texts t ht)
  | .footnote _ _, _ => by
    rw [blockHtml]
    exact Report.isClean_pure _
  | .foreign value, h => absurd rfl (h.native value)

theorem isClean_blocksHtml [Yaml.Reader] (he : e.IsSafe p) :
    (bs : List Block) → Block.AllEvery (Block.IsRenderable p) bs →
      (e.blocksHtml e.quotedHtml bs).IsClean
  | [], _ => by
    rw [blocksHtml]
    exact Report.isClean_pure []
  | b :: r, h => by
    rw [blocksHtml]
    exact (isClean_blockHtml he b h.1).bind fun _ =>
      (isClean_blocksHtml he r h.2).bind fun _ => Report.isClean_pure _

theorem isClean_itemHtml [Yaml.Reader] (he : e.IsSafe p) :
    (i : Item) → p i.content → i.Every (Block.IsRenderable p) →
      (e.itemHtml e.quotedHtml i).IsClean
  | .mk content checked children, hcontent, h => by
    rw [itemHtml]
    exact (isClean_linesHtml he hcontent).bind fun _ =>
      (isClean_blocksHtml he children h).bind fun _ => Report.isClean_pure _

theorem isClean_itemsHtml [Yaml.Reader] (he : e.IsSafe p) :
    (items : List Item) → (∀ i ∈ items, p i.content) →
      Item.AllEvery (Block.IsRenderable p) items → (e.itemsHtml e.quotedHtml items).IsClean
  | [], _, _ => by
    rw [itemsHtml]
    exact Report.isClean_pure []
  | i :: r, hcontents, h => by
    obtain ⟨hi, hr⟩ := List.forall_mem_cons.mp hcontents
    rw [itemsHtml]
    exact (isClean_itemHtml he i hi h.1).bind fun _ =>
      (isClean_itemsHtml he r hr h.2).bind fun _ => Report.isClean_pure _

end

/-- A document with short texts has HTML, its footnotes included. -/
theorem isClean_render [Yaml.Reader] (he : e.IsSafe p) {bs : List Block}
    (hblocks : ∀ b ∈ bs, b.Every (Block.IsRenderable p))
    (hnotes : ∀ f ∈ e.references.notes, p f.2.content) : (e.render bs).IsClean := by
  have hfootnotes : e.footnotesHtml.IsClean :=
    failsWithin_footnotesHtml fun f hf => he.inline _ (hnotes f hf)
  refine (Report.isClean_mapM fun b hb => isClean_blockHtml he b (hblocks b hb)).bind fun _ => ?_
  dsimp only
  split
  · exact Report.isClean_map_iff.mpr hfootnotes |>.bind fun _ => Report.isClean_pure _
  · exact Report.isClean_pure _

end Rendering

/-! ### Splitting into blocks -/

/-- The reader does not break off at the content of a block of unfenced YAML. -/
def Block.IsReadable [Yaml.Reader] : Block → Prop
  | .code language content detected =>
    detected = true → language = "yaml".toList →
      ∀ f, Yaml.Reader.load content ≠ .broken f
  | _ => True

namespace Listing

theorem isClean_start {line : Text} {m : Line.Marker} (hm : Line.marker? line = some m)
    (h : RunsWithin Json.maxDigits line) : (start m).IsClean := by
  unfold start
  split
  · exact Report.isClean_pure 1
  · next ds hds =>
    obtain ⟨hisInfix, hdigits⟩ := (Line.isInfix_marker? hm).2 ds hds
    have hrun := (h.of_isInfix hisInfix).takeWhile
    rw [List.takeWhile_eq_self_iff.mpr hdigits] at hrun
    rw [if_neg (by omega)]
    exact (Report.isClean_pure _).bind fun _ => Report.isClean_pure _

/-- A list has the faults of the numbers in its lines only. -/
theorem failsWithin_collect {q : Fault → Prop} (base : Nat) (ordered : Bool) (done : List Item)
    {lines : List Text}
    (h : ∀ l ∈ lines, ∀ m, Line.marker? l = some m → (start m).FailsWithin q) :
    (collect base ordered done lines).FailsWithin q := by
  induction hk : lines.length using Nat.strongRecOn generalizing base ordered done lines with
  | ind k ih =>
    cases lines with
    | nil =>
      rw [collect_nil]
      exact Report.failsWithin_pure _
    | cons line rest =>
      obtain ⟨hline, hrest⟩ := List.forall_mem_cons.mp h
      have hdrop : ∀ j, ∀ l ∈ rest.drop j, ∀ m, Line.marker? l = some m → (start m).FailsWithin q :=
        fun j l hl => hrest l (List.mem_of_mem_drop hl)
      simp only [List.length_cons] at hk
      have hlength : ∀ j, (rest.drop j).length < k := fun j => by
        simp only [List.length_drop]
        omega
      rw [collect_cons]
      split
      · exact Report.failsWithin_pure _
      · exact (ih _ (hlength _) base ordered done (hdrop _) rfl).bind fun _ =>
          Report.failsWithin_pure _
      · next m hturn =>
        refine (hline m (marker?_of_turn_nest hturn)).bind fun _ => ?_
        refine (ih _ (by omega) _ m.ordered _ hrest rfl).bind fun _ => ?_
        exact (ih _ (hlength _) base ordered _ (hdrop _) rfl).bind fun _ => Report.failsWithin_pure _
      · exact (ih _ (by omega) base ordered _ hrest rfl).bind fun _ => Report.failsWithin_pure _
      · exact (ih _ (by omega) base ordered _ hrest rfl).bind fun _ => Report.failsWithin_pure _

theorem isClean_collect (base : Nat) (ordered : Bool) (done : List Item) {lines : List Text}
    (h : ∀ l ∈ lines, RunsWithin Json.maxDigits l) : (collect base ordered done lines).IsClean :=
  Report.isClean_iff_failsWithin.mpr
    (failsWithin_collect base ordered done fun l hl _ hm => isClean_start hm (h l hl))

end Listing

theorem Paragraph.isClean_interrupts (number : Nat) (line : Text) (rest : List Text) :
    (interrupts number line rest).IsClean := by
  unfold interrupts
  dsimp only
  split
  · exact Report.isClean_pure true
  · split
    · exact Report.isClean_pure true
    · exact Report.isClean_pure true
    · split
      · exact Report.isClean_pure true
      · split
        · split
          · next m hm =>
            obtain ⟨n, -, -, rfl⟩ := Data.recogniseJson_eq_some hm
            intro f
            simp
          · exact Report.isClean_pure false
        · exact Report.isClean_pure false

theorem Paragraph.isClean_continuation (number : Nat) (lines : List Text) :
    (continuation number lines).IsClean := by
  induction lines generalizing number with
  | nil => exact Report.isClean_pure _
  | cons line rest ih =>
    rw [continuation]
    split
    · exact Report.isClean_pure _
    · refine (isClean_interrupts number line rest).bind fun stops => ?_
      split
      · exact Report.isClean_pure _
      · exact (ih (number + 1)).bind fun _ => Report.isClean_pure _

/-- The faults of a match of a shape other than lists and quotes: its block is unfenced YAML, and the
reader breaks off at it. -/
theorem Shape.failed_mem_notes_iff [Yaml.Reader] {s : Shape} (hs : s ≠ .list) {number : Nat}
    {line : Text} {rest : List Text} {m : Match} (h : s.recogniser number line rest = some m)
    {f : Fault} :
    .failed f ∈ m.notes ↔
      ∃ content g, m.block = .code "yaml".toList content true ∧
        Yaml.Reader.load content = .broken g ∧ f = .yaml g := by
  unfold recogniser at h
  cases s with
  | fencedCode =>
    obtain ⟨-, rfl⟩ := Fence.recognise_eq_some h
    simp
  | hashHeading =>
    obtain ⟨n, behind, body, -, -, -, rfl⟩ := Heading.recognise_eq_some h
    simp
  | underlinedHeading =>
    obtain ⟨next, more, level, -, -, -, rfl⟩ := Heading.recogniseUnderlined_eq_some h
    simp
  | rule =>
    obtain ⟨-, rfl⟩ := Heading.recogniseRule_eq_some h
    simp
  | quote => cases h
  | table =>
    obtain ⟨separator, more, alignments, -, -, -, rfl⟩ := Table.recognise_eq_some h
    simp
  | glossary =>
    obtain ⟨-, rfl⟩ := Glossary.recognise_eq_some h
    simp
  | list => exact absurd rfl hs
  | indentedCode =>
    obtain ⟨code, -, -, rfl⟩ := Fence.recogniseIndented_eq_some h
    simp
  | json =>
    obtain ⟨n, -, -, rfl⟩ := Data.recogniseJson_eq_some h
    simp
  | yaml =>
    obtain ⟨-, -, notes, rfl, ⟨hload, rfl⟩ | ⟨g, hload, rfl⟩⟩ := Data.recogniseYaml_eq_some h
    · simp [hload]
    · simp [hload, eq_comm]

/-- So it has no fault exactly if its block is not such data. -/
theorem Shape.isClean_report_iff [Yaml.Reader] {s : Shape} (hs : s ≠ .list) {number : Nat}
    {line : Text} {rest : List Text} {m : Match} (h : s.recogniser number line rest = some m) :
    m.report.IsClean ↔ m.block.IsReadable := by
  have hnotes : m.report.IsClean ↔ ∀ f, ¬∃ content g, m.block = .code "yaml".toList content true ∧
      Yaml.Reader.load content = .broken g ∧ f = Fault.yaml g :=
    forall_congr' fun f => not_congr (failed_mem_notes_iff hs h)
  rw [hnotes]
  cases m.block with
  | code language content detected =>
    constructor
    · rintro hnone rfl rfl g hload
      exact hnone (Fault.yaml g) ⟨content, g, rfl, hload, rfl⟩
    · rintro hreadable f ⟨content', g, heq, hload, -⟩
      obtain ⟨rfl, rfl, rfl⟩ := Block.code.inj heq
      exact hreadable rfl rfl g hload
  | _ => simp [Block.IsReadable]

namespace Document

/-- Lists hold no data. -/
theorem isReadable_opened [Yaml.Reader] (base : Nat) {line : Text} {rest : List Text}
    {m : Line.Marker} (hm : Line.marker? line = some m) :
    (Listing.opened base m rest).Every Block.IsReadable :=
  Listing.every_opened (q := fun _ => True) (fun _ _ _ => trivial) (fun _ _ _ _ _ _ => trivial) base
    hm trivial

/-- Splitting lines is a fault exactly if the reader breaks off at one of the blocks of unfenced
YAML. -/
theorem isClean_blocksFrom_iff [Yaml.Reader] (structured : Bool) (number : Nat)
    {lines : List Text} (h : ∀ l ∈ lines, RunsWithin Json.maxDigits l) :
    (blocksFrom structured number lines).IsClean ↔
      ∀ b ∈ (blocksFrom structured number lines).value, b.Every Block.IsReadable := by
  induction hk : Quote.size lines using Nat.strongRecOn generalizing number lines with
  | ind k ih =>
    cases lines with
    | nil => simp
    | cons line rest =>
      obtain ⟨hline, hrest⟩ := List.forall_mem_cons.mp h
      simp only [Quote.size_cons] at hk
      by_cases hblank : Text.allBlank line = true
      · rw [blocksFrom_blank _ _ _ hblank]
        exact ih _ (by omega) _ hrest rfl
      · rw [Bool.not_eq_true] at hblank
        have hle := Quote.size_drop_le (matchAt structured number line rest).extra rest
        have hmore := ih (Quote.size (rest.drop (matchAt structured number line rest).extra))
          (by omega) (number + (matchAt structured number line rest).extra + 1)
          (fun l hl => hrest l (List.mem_of_mem_drop hl)) rfl
        -- A quote has the faults of its lines, so the first match needs the induction as well.
        have hfirst : (matchAt structured number line rest).report.IsClean ↔
            (matchAt structured number line rest).block.Every Block.IsReadable := by
          have hmatch := matchesAt structured number line rest
          generalize matchAt structured number line rest = m at hmatch ⊢
          cases hmatch with
          | paragraph =>
            have hclean := Paragraph.isClean_continuation (number + 1) rest
            exact ⟨fun _ => trivial, fun _ => hclean⟩
          | @quote text htext =>
            have hlt := Quote.length_lt_of_strip? htext
            have hbody := Quote.size_body_le rest
            have hinner : ∀ l ∈ text :: Quote.body rest, RunsWithin Json.maxDigits l :=
              List.forall_mem_cons.mpr ⟨LinesFit.strip? hline htext, LinesFit.runs_body hrest⟩
            have hchildren := ih (Quote.size (text :: Quote.body rest))
              (by rw [Quote.size_cons]; omega) 0 hinner rfl
            exact hchildren.trans
              ⟨fun h => ⟨trivial, Block.allEvery_iff.mpr h⟩, fun h => Block.allEvery_iff.mp h.2⟩
          | @list marker hmarker =>
            have hstart := Listing.isClean_start hmarker hline
            have hcollect := Listing.isClean_collect (Line.indent line) marker.ordered
              [Listing.item marker] hrest
            refine ⟨fun _ => isReadable_opened (Line.indent line) hmarker, fun _ f hf => ?_⟩
            rcases List.mem_append.mp hf with hf | hf
            · exact hstart f hf
            · exact hcollect f hf
          | leaf hs hm =>
            rw [Shape.isClean_report_iff hs hm,
              Block.every_iff_of_isLeaf (Shape.isLeaf_of_recogniser hs hm)]
        rw [blocksFrom_cons _ _ _ hblank]
        dsimp only
        rw [Report.isClean_bind_iff, Report.isClean_bind_iff, hfirst, hmore]
        simp only [Report.isClean_pure, and_true, Report.value_bind, Report.value_pure,
          List.forall_mem_cons]
        exact Iff.rfl

theorem isClean_tokenize_iff [Yaml.Reader] (c : Config) {t : Text} {size : Nat}
    (h : t.Fits Json.maxDigits size) :
    (tokenize c t .empty).1.IsClean ↔
      ∀ b ∈ (tokenize c t .empty).1.value, b.Every Block.IsReadable := by
  unfold tokenize
  split
  · simp
  · obtain ⟨hleft, -, -⟩ := References.fit_extract h.normalizeNewlines
    have hlines := (LinesFit.of_text hleft).runs
    dsimp only
    rw [Report.isClean_bind_iff, Report.isClean_bind_iff]
    refine Iff.trans ?_ (isClean_blocksFrom_iff c.structuredData 0 hlines)
    exact ⟨fun h => h.1, fun h => ⟨h, Report.isClean_log _, Report.isClean_pure _⟩⟩

/-- The blocks of a text can be rendered, as can its footnotes. -/
theorem isRenderable_tokenize [Yaml.Reader] (c : Config) {t : Text} {size : Nat}
    (h : t.Fits Json.maxDigits size) :
    (∀ b ∈ (tokenize c t .empty).1.value,
      b.Every (Block.IsRenderable (Text.Fits Json.maxDigits size))) ∧
    (tokenize c t .empty).2.Fit Json.maxDigits size ∧ (tokenize c t .empty).2.next ≤ size + 1 := by
  unfold tokenize
  split
  · exact ⟨by simp, References.fit_empty, by simp [References.empty]⟩
  · obtain ⟨hleft, hfit, hnext⟩ := References.fit_extract h.normalizeNewlines
    exact ⟨every_blocksFrom (yields_isRenderable c.structuredData Json.maxDigits size) 0 _
      (LinesFit.of_text hleft), hfit, hnext⟩

end Document

/-! ### Converting a text -/

/-- No text of the platform has so many characters. -/
def Text.lengthLimit : Nat := 2 ^ 63

theorem Text.lengthLimit_le : 6 * lengthLimit + 1 ≤ 10 ^ Json.maxDigits :=
  calc 6 * lengthLimit + 1 ≤ 10 ^ 20 := by decide
    _ ≤ 10 ^ Json.maxDigits := Nat.pow_le_pow_right (by decide) (by decide)

/-- Whatever the YAML reader, a text without long runs of digits has HTML exactly if the reader breaks
off at none of the unfenced data that is taken for YAML. -/
theorem renderMarkdown_answer_eq_ok_iff [Yaml.Reader] (c : Config) {t : Text}
    (hdigits : t.RunsWithin Json.maxDigits) (hlength : t.length < Text.lengthLimit) :
    (∃ html, (renderMarkdown c .builtin .empty (.string t)).1.answer = .ok html) ↔
      ∀ b ∈ (Document.tokenize c t .empty).1.value, b.Every Block.IsReadable := by
  have hlimit := Text.lengthLimit_le
  have ht : t.Fits Json.maxDigits Text.lengthLimit := ⟨hdigits, hlength⟩
  obtain ⟨hblocks, hfit, hnext⟩ := Document.isRenderable_tokenize c ht
  have hreferences := hfit.runsWithin (by decide) (by omega)
  have hsafe : Rendering.IsSafe (c.rendering .builtin (Document.tokenize c t .empty).2)
      (Text.Fits Json.maxDigits Text.lengthLimit) := by
    refine ⟨fun text htext => ?_, rfl⟩
    have hshort := htext.length
    exact Inline.isClean_render hreferences c.sanitize (by omega) htext.runs
  have hrender := Rendering.isClean_render hsafe hblocks hfit.contents
  rw [Report.exists_answer_eq_ok_iff, ← Document.isClean_tokenize_iff c ht]
  exact ⟨fun h => (Report.isClean_bind_iff.mp h).1, fun h => Report.isClean_bind_iff.mpr ⟨h, hrender⟩⟩

/-- A mapping that is not closed is no YAML; its lines are a paragraph. -/
theorem renderMarkdown_answer_eq_ok_iff_unclosed :
    let t : Text := "key: [unclosed\nother: x".toList
    t.RunsWithin Json.maxDigits ∧ t.length < Text.lengthLimit ∧
      ∃ html, (renderMarkdown {} .builtin .empty (.string t)).1.answer = .ok html := by
  intro t
  have hdigits : t.RunsWithin Json.maxDigits := runsWithin_of_length_le (by decide)
  have hlength : t.length < Text.lengthLimit := by decide
  have hparagraphs : ((Document.tokenize {} t .empty).1.value.all fun b => b matches .paragraph _) =
      true := by
    unfold t
    rw [String.toList_ofList]
    decide +kernel
  refine ⟨hdigits, hlength, (renderMarkdown_answer_eq_ok_iff {} hdigits hlength).mpr ?_⟩
  intro b hb
  have hparagraph := List.all_eq_true.mp hparagraphs b hb
  cases b with
  | paragraph => trivial
  | _ => cases hparagraph

/-- The exception is real: a word that is tagged as a truth value, in a mapping without a fence, is a
fault of the whole text. -/
theorem renderMarkdown_answer_of_untrue_word :
    let t : Text := "a: !!bool foo\nb: 1".toList
    t.RunsWithin Json.maxDigits ∧ t.length < Text.lengthLimit ∧
      (renderMarkdown {} .builtin .empty (.string t)).1.answer =
        .error (.yaml (.unknownTruthValue "foo".toList)) := by
  refine ⟨runsWithin_of_length_le (by decide), by decide, ?_⟩
  rw [String.toList_ofList, String.toList_ofList]
  decide +kernel

end Markdown
