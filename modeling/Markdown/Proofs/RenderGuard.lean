import Markdown.Proofs.HighlightGuard
import Markdown.Proofs.Levels
import Markdown.Render

/-!
# No markup of the source reaches the HTML

When sanitizing, every `<` in the HTML of a document is the first character of a tag of the
renderer, and every `&` begins one of five character references. Inline text and highlighted code
have this property already, so it is left to look at the tags of the blocks.
-/

namespace Markdown

open Text Html

namespace Rendering

/-! ### The tags -/

/-- The elements of blocks whose tags are written without attributes. -/
def blockNames : List Text :=
  ["h1".toList, "h2".toList, "h3".toList, "h4".toList, "h5".toList, "h6".toList, "p".toList,
    "pre".toList, "code".toList, "ul".toList, "ol".toList, "li".toList, "table".toList,
    "thead".toList, "tbody".toList, "tr".toList, "th".toList, "td".toList, "blockquote".toList,
    "dl".toList, "dt".toList, "dd".toList]

/-- The opening tags of cells with an alignment. -/
def cellTags : List Text :=
  ["th".toList, "td".toList].flatMap fun name =>
    ["left".toList, "center".toList, "right".toList].map fun a =>
      '<' :: (name ++ (" style=\"text-align: ".toList ++ a ++ ['"']) ++ ['>'])

/-- The tags of blocks that have attributes, up to what is written into them. -/
def attributeTags : List Text :=
  ["<code class=\"language-".toList, "<code autodetected>".toList, "<ol start=\"".toList,
    "<ul class=\"task-list\">".toList, "<li class=\"task-list-item\">".toList,
    "<input type=\"checkbox\" disabled />".toList,
    "<input type=\"checkbox\" checked disabled />".toList, "<hr />".toList,
    "<div class=\"footnotes\">".toList, "</div>".toList, "<ol class=\"footnote-list\">".toList,
    "<li id=\"fn-".toList] ++ cellTags

/-- All tags that the renderer writes: those of blocks, of inline text and of highlighted code. -/
def tags : List Text :=
  blockNames.flatMap Inline.tagPair ++ attributeTags ++
    (Inline.spanNames.flatMap Inline.tagPair ++ Inline.linkTags ++ Inline.lineTags) ++
    Highlight.tags

/-- The openings in the HTML of a document. -/
def openings : List Text :=
  entities ++ tags

/-! ### Fixed texts

What blocks write around what they have read is guarded. The literals are turned into lists of
characters by rewriting first, since evaluating them in the kernel is slow. -/

/-- The tags of blocks are guarded, no opening has `<` or a line feed inside, and tags and references
begin with different characters. -/
theorem openings_facts :
    (blockNames.flatMap Inline.tagPair ++ attributeTags).all (isGuarded openings) = true ∧
      areCuts openings ['<'] = true ∧ openings.all (fun o => !o.contains '\n') = true ∧
      tags.all (fun o => o.head? == some '<') = true ∧
      entities.all (fun o => o.head? == some '&') = true := by
  unfold openings tags blockNames attributeTags cellTags Inline.spanNames Inline.linkTags
    Inline.lineTags Highlight.tags Highlight.classNames Highlight.classTag entities
  repeat rw [String.toList_ofList]
  decide +kernel

/-- The texts around code, tables, lists, footnotes, attributes and breaks, group by group. -/
theorem guarded_texts :
    (Guarded openings "<pre><code>".toList ∧ Guarded openings "<pre><code autodetected>".toList ∧
      Guarded openings "<pre><code class=\"language-".toList ∧
      Guarded openings "</code></pre>".toList) ∧
    (Guarded openings "<table><thead><tr>".toList ∧ Guarded openings "</tr></thead>".toList ∧
      Guarded openings "</table>".toList) ∧
    ((Guarded openings "<ol>".toList ∧ Guarded openings "<ol start=\"".toList ∧
      Guarded openings "<ul class=\"task-list\">".toList ∧ Guarded openings "<ul>".toList) ∧
    (Guarded openings "</ol>".toList ∧ Guarded openings "</ul>".toList ∧
      Guarded openings "<li>".toList ∧ Guarded openings "</li>".toList) ∧
    Guarded openings ("<li class=\"task-list-item\"><input type=\"checkbox\"".toList ++
      " checked".toList ++ " disabled /> ".toList) ∧
    Guarded openings ("<li class=\"task-list-item\"><input type=\"checkbox\"".toList ++ [] ++
      " disabled /> ".toList)) ∧
    (Guarded openings "<div class=\"footnotes\"><hr /><ol class=\"footnote-list\">".toList ∧
      Guarded openings "</ol></div>".toList ∧ Guarded openings "<li id=\"fn-".toList ∧
      Guarded openings " <a href=\"#fnref-".toList ∧
      Guarded openings (backArrow :: "</a></li>".toList)) ∧
    ((Guarded openings "\">".toList ∧ Guarded openings "\" autodetected>".toList) ∧
      Guarded openings "\" class=\"footnote-item\">".toList ∧
      Guarded openings "\" class=\"footnote-backref\">".toList) ∧
    Guarded openings "<br />".toList ∧ Guarded openings "<hr />".toList := by
  repeat rw [← isGuarded_iff]
  unfold openings tags blockNames attributeTags cellTags Inline.spanNames Inline.linkTags
    Inline.lineTags Highlight.tags Highlight.classNames Highlight.classTag entities
  repeat rw [String.toList_ofList]
  decide +kernel

theorem guarded_attributeEnds :
    (Guarded openings "\">".toList ∧ Guarded openings "\" autodetected>".toList) ∧
      Guarded openings "\" class=\"footnote-item\">".toList ∧
      Guarded openings "\" class=\"footnote-backref\">".toList :=
  guarded_texts.2.2.2.2.1

theorem guarded_breakTexts :
    Guarded openings "<br />".toList ∧ Guarded openings "<hr />".toList :=
  guarded_texts.2.2.2.2.2

theorem mem_blockNames :
    ("p".toList ∈ blockNames ∧ "blockquote".toList ∈ blockNames) ∧
      ("th".toList ∈ blockNames ∧ "td".toList ∈ blockNames ∧ "tr".toList ∈ blockNames ∧
        "tbody".toList ∈ blockNames) ∧
      ("dl".toList ∈ blockNames ∧ "dt".toList ∈ blockNames ∧ "dd".toList ∈ blockNames) ∧
      [1, 2, 3, 4, 5, 6].all (fun n => blockNames.contains ('h' :: ofInt n)) = true := by
  unfold blockNames
  repeat rw [String.toList_ofList]
  decide +kernel

theorem guarded_tagPair {name : Text} (hname : name ∈ blockNames) :
    ∀ tag ∈ Inline.tagPair name, Guarded openings tag := fun tag htag =>
  guarded_of_isGuarded (List.all_eq_true.mp openings_facts.1 tag
    (List.mem_append_left _ (List.mem_flatMap.mpr ⟨name, hname, htag⟩)))

theorem lineOpenings_subset : Inline.lineOpenings ⊆ openings := by
  intro o ho
  simp only [Inline.lineOpenings, Inline.linkOpenings, Inline.spanOpenings, openings, tags,
    List.mem_append] at ho ⊢
  rcases ho with ((h | h) | h) | h <;> simp [h]

theorem highlightOpenings_subset : Highlight.openings ⊆ openings := by
  intro o ho
  simp only [Highlight.openings, openings, tags, List.mem_append] at ho ⊢
  rcases ho with h | h <;> simp [h]

theorem guarded_element {name : String} (hname : name.toList ∈ blockNames) {t : Text}
    (ht : Guarded openings t) : Guarded openings (Inline.element name t) :=
  Inline.guarded_element (guarded_tagPair hname) ht

theorem guarded_escape (t : Text) : Guarded openings (escape t) :=
  (Inline.guarded_escape t).mono (List.subset_append_left _ _)

/-! ### Text inside blocks -/

variable {e : Rendering}

theorem guarded_inlineHtml (he : e.sanitize = true) (t : Text) :
    Guarded openings (e.inlineHtml t).value := by
  unfold inlineHtml
  rw [he]
  exact (Inline.guarded_render e.references t).mono lineOpenings_subset

theorem guarded_breakLines {t : Text} (h : Guarded openings t) : Guarded openings (breakLines t) := by
  obtain ⟨hbreak, -⟩ := guarded_breakTexts
  obtain ⟨-, hcuts, hline, -⟩ := openings_facts
  refine Guarded.flatMap (fun o ho c hc => if_neg ?_) (fun c => ?_) ?_
  · rintro rfl
    simpa [hc] using List.all_eq_true.mp hline o ho
  · split
    · exact .inr hbreak
    · exact .inl rfl
  · refine h.replaceBy_of_cuts (List.Subset.refl _) fun before c r hit _ hrule => ?_
    unfold Rule.fixed at hrule
    split at hrule
    · next hstart =>
      obtain rfl := Option.some.inj hrule
      obtain ⟨rest, hrest⟩ := List.isPrefixOf_iff_prefix.mp hstart
      have hc : '<' = c := by
        rw [String.toList_ofList] at hrest
        exact (List.cons.inj hrest).1
      exact ⟨cuts_of_areCuts hcuts (hc ▸ List.mem_cons_self), hbreak⟩
    · cases hrule

theorem guarded_linesHtml (he : e.sanitize = true) (t : Text) :
    Guarded openings (e.linesHtml t).value :=
  guarded_breakLines (guarded_inlineHtml he t)

/-! ### Blocks without blocks inside -/

/-- The frame of code around guarded HTML. -/
theorem guarded_codeFrame (language : Text) (detected : Bool) {body : Text}
    (hbody : Guarded openings body) :
    Guarded openings ("<pre><code".toList ++
      (if language.isEmpty then [] else " class=\"language-".toList ++ escape language ++ ['"']) ++
      (if detected then " autodetected".toList else []) ++ '>' :: body ++ "</code></pre>".toList) := by
  obtain ⟨hplain, hauto, hclass, hend⟩ := guarded_texts.1
  cases language.isEmpty with
  | true =>
    cases detected with
    | true => exact (hauto.append hbody).append hend
    | false => exact (hplain.append hbody).append hend
  | false =>
    have hname := hclass.append (guarded_escape language)
    cases detected with
    | true =>
      have hwhole := ((hname.append guarded_attributeEnds.1.2).append hbody).append hend
      simpa using hwhole
    | false =>
      have hwhole := ((hname.append guarded_attributeEnds.1.1).append hbody).append hend
      simpa using hwhole

theorem guarded_codeHtml (hr : ∀ h ∈ e.registry, h.2.Guards) (language content : Text)
    (detected : Bool) : Guarded openings (e.codeHtml language content detected).value := by
  unfold codeHtml
  dsimp only
  split
  · exact guarded_codeFrame language detected
      ((Highlight.guarded_highlight hr _ _ _).mono highlightOpenings_subset)
  · exact guarded_codeFrame language detected (guarded_escape content)

/-! ### Tables and definitions -/

theorem guarded_cellOpening {name : String} (hname : name = "th" ∨ name = "td")
    (a : Option Alignment) :
    Guarded openings ('<' :: (name.toList ++ alignmentAttribute a ++ ['>'])) := by
  obtain ⟨-, ⟨hth, htd, -⟩, -⟩ := mem_blockNames
  rcases a with _ | a
  · show Guarded openings ('<' :: (name.toList ++ [] ++ ['>']))
    rw [List.append_nil]
    rcases hname with rfl | rfl
    · exact guarded_tagPair hth _ List.mem_cons_self
    · exact guarded_tagPair htd _ List.mem_cons_self
  · refine guarded_of_isGuarded (List.all_eq_true.mp openings_facts.1 _
      (List.mem_append_right _ (List.mem_append_right _ ?_)))
    have ha : a.name ∈ ["left".toList, "center".toList, "right".toList] := by
      cases a with
      | left => exact List.mem_cons_self
      | center => exact List.mem_cons_of_mem _ List.mem_cons_self
      | right => exact List.mem_cons_of_mem _ (List.mem_cons_of_mem _ List.mem_cons_self)
    rcases hname with rfl | rfl
    · exact List.mem_flatMap.mpr ⟨"th".toList, List.mem_cons_self, List.mem_map.mpr ⟨a.name, ha, rfl⟩⟩
    · exact List.mem_flatMap.mpr ⟨"td".toList, List.mem_cons_of_mem _ List.mem_cons_self,
        List.mem_map.mpr ⟨a.name, ha, rfl⟩⟩

theorem guarded_cellsHtml (he : e.sanitize = true) {name : String} (hname : name = "th" ∨ name = "td")
    (alignments : List (Option Alignment)) (cells : List Text) :
    Guarded openings (e.cellsHtml name alignments cells).value := by
  induction cells generalizing alignments with
  | nil =>
    rw [cellsHtml]
    exact guarded_nil
  | cons cell cells ih =>
    have hopen := guarded_cellOpening hname alignments.head?.join
    have hclose : Guarded openings ('<' :: '/' :: (name.toList ++ ['>'])) := by
      obtain ⟨-, ⟨hth, htd, -⟩, -⟩ := mem_blockNames
      rcases hname with rfl | rfl
      · exact guarded_tagPair hth _ (by simp [Inline.tagPair])
      · exact guarded_tagPair htd _ (by simp [Inline.tagPair])
    have hwhole := hopen.append ((guarded_inlineHtml he cell).append
      (hclose.append (ih alignments.tail)))
    rw [cellsHtml]
    simpa using hwhole

theorem guarded_rowsHtml (he : e.sanitize = true) (alignments : List (Option Alignment))
    (rows : List (List Text)) : Guarded openings (e.rowsHtml alignments rows).value := by
  unfold rowsHtml
  simp only [Report.value_bind, Report.value_mapM, Report.value_pure]
  refine guarded_flatten fun row hrow => ?_
  obtain ⟨cells, -, rfl⟩ := List.mem_map.mp hrow
  exact guarded_element mem_blockNames.2.1.2.2.1 (guarded_cellsHtml he (.inr rfl) _ _)

theorem guarded_tableHtml (he : e.sanitize = true) (headers : List Text)
    (alignments : List (Option Alignment)) (rows : List (List Text)) :
    Guarded openings (e.tableHtml headers alignments rows).value := by
  obtain ⟨hopen, hmiddle, hend⟩ := guarded_texts.2.1
  have hhead : Guarded openings (e.cellsHtml "th" alignments headers).value :=
    guarded_cellsHtml he (.inl rfl) _ _
  have hbody : Guarded openings (if rows.isEmpty then [] else
      Inline.element "tbody" (e.rowsHtml alignments rows).value) := by
    split
    · exact guarded_nil
    · exact guarded_element mem_blockNames.2.1.2.2.2 (guarded_rowsHtml he _ _)
  exact (((hopen.append hhead).append hmiddle).append hbody).append hend

theorem guarded_definitionsHtml (he : e.sanitize = true) (items : List Definition) :
    Guarded openings (e.definitionsHtml items).value := by
  obtain ⟨hdl, hdt, hdd⟩ := mem_blockNames.2.2.1
  unfold definitionsHtml
  simp only [Report.value_bind, Report.value_mapM, Report.value_pure]
  refine guarded_element hdl (guarded_flatten fun html hhtml => ?_)
  obtain ⟨d, -, rfl⟩ := List.mem_map.mp hhtml
  unfold definitionHtml
  simp only [Report.value_bind, Report.value_mapM, Report.value_pure, Report.value_map]
  refine (guarded_element hdt (guarded_inlineHtml he _)).append
    (guarded_flatten fun html hhtml => ?_)
  obtain ⟨m, -, rfl⟩ := List.mem_map.mp hhtml
  exact guarded_element hdd (guarded_inlineHtml he m)

/-! ### Blocks -/

theorem guarded_ofInt (n : Int) : Guarded openings (ofInt n) := by
  cases n with
  | ofNat n => exact Inline.guarded_ofNat n
  | negSucc n => exact .cons (by decide) (Inline.guarded_ofNat _)

theorem guarded_listOpening (ordered : Bool) (start : Int) (task : Bool) :
    Guarded openings (listOpening ordered start task) := by
  obtain ⟨⟨hordered, hstart, htask, hbullet⟩, -⟩ := guarded_texts.2.2.1
  unfold listOpening
  split
  · split
    · exact hordered
    · exact (hstart.append (guarded_ofInt start)).append guarded_attributeEnds.1.1
  · split
    · exact htask
    · exact hbullet

theorem guarded_listClosing (ordered : Bool) : Guarded openings (listClosing ordered) := by
  obtain ⟨-, ⟨hordered, hbullet, -⟩, -⟩ := guarded_texts.2.2.1
  cases ordered
  · exact hbullet
  · exact hordered

theorem guarded_itemOpening (checked : Option Bool) : Guarded openings (itemOpening checked) := by
  obtain ⟨-, ⟨-, -, hplain, -⟩, hticked, hopen⟩ := guarded_texts.2.2.1
  rcases checked with _ | checked
  · exact hplain
  · cases checked
    · exact hopen
    · exact hticked

theorem guarded_headingHtml {level : Int} (hlevel : 1 ≤ level ∧ level ≤ 6) {inner : Text}
    (h : Guarded openings inner) :
    Guarded openings ('<' :: ('h' :: ofInt level ++ '>' :: inner ++
      '<' :: '/' :: ('h' :: ofInt level ++ ['>']))) := by
  have hmem : level ∈ [1, 2, 3, 4, 5, 6] := by
    simp only [List.mem_cons, List.not_mem_nil, or_false]
    omega
  have hname := List.contains_iff_mem.mp (List.all_eq_true.mp mem_blockNames.2.2.2 level hmem)
  have hopen := guarded_tagPair hname ('<' :: ('h' :: ofInt level ++ ['>'])) (by simp [Inline.tagPair])
  have hclose := guarded_tagPair hname ('<' :: '/' :: ('h' :: ofInt level ++ ['>']))
    (by simp [Inline.tagPair])
  have hwhole := hopen.append (h.append hclose)
  simpa using hwhole

section

variable {quoted : Text → Report Text}

mutual

theorem guarded_blockHtml (he : e.sanitize = true) (hr : ∀ h ∈ e.registry, h.2.Guards)
    (hquoted : ∀ t, Guarded openings (quoted t).value) :
    (b : Block) → b.Every Block.IsLevelled → Guarded openings (e.blockHtml quoted b).value
  | .heading level content, hb => by
    rw [blockHtml]
    exact guarded_headingHtml hb (guarded_inlineHtml he content)
  | .paragraph content, _ => by
    rw [blockHtml, Report.value_map]
    exact guarded_element mem_blockNames.1.1 (guarded_linesHtml he content)
  | .code language content detected, _ => by
    rw [blockHtml]
    exact guarded_codeHtml hr language content detected
  | .list ordered start items, hb => by
    rw [blockHtml]
    exact ((guarded_listOpening _ _ _).append (guarded_itemsHtml he hr hquoted items hb.2)).append
      (guarded_listClosing ordered)
  | .table headers alignments rows, _ => by
    rw [blockHtml]
    exact guarded_tableHtml he _ _ _
  | .quote content children, hb => by
    rw [blockHtml]
    split
    · exact guarded_element mem_blockNames.1.2 (hquoted content)
    · exact guarded_element mem_blockNames.1.2 (guarded_blocksHtml he hr hquoted children hb.2)
  | .rule, _ => by
    rw [blockHtml]
    exact guarded_breakTexts.2
  | .definitions items, _ => by
    rw [blockHtml]
    exact guarded_definitionsHtml he items
  | .footnote _ _, _ => by
    rw [blockHtml]
    exact guarded_nil
  | .foreign _, _ => by
    rw [blockHtml]
    exact guarded_nil

theorem guarded_blocksHtml (he : e.sanitize = true) (hr : ∀ h ∈ e.registry, h.2.Guards)
    (hquoted : ∀ t, Guarded openings (quoted t).value) :
    (bs : List Block) → Block.AllEvery Block.IsLevelled bs → Guarded openings (e.blocksHtml quoted bs).value
  | [], _ => by
    rw [blocksHtml]
    exact guarded_nil
  | b :: r, hbs => by
    rw [blocksHtml]
    exact (guarded_blockHtml he hr hquoted b hbs.1).append (guarded_blocksHtml he hr hquoted r hbs.2)

theorem guarded_itemHtml (he : e.sanitize = true) (hr : ∀ h ∈ e.registry, h.2.Guards)
    (hquoted : ∀ t, Guarded openings (quoted t).value) :
    (i : Item) → i.Every Block.IsLevelled → Guarded openings (e.itemHtml quoted i).value
  | .mk content checked children, hi => by
    rw [itemHtml]
    exact (((guarded_itemOpening checked).append (guarded_linesHtml he content)).append
      (guarded_blocksHtml he hr hquoted children hi)).append guarded_texts.2.2.1.2.1.2.2.2

theorem guarded_itemsHtml (he : e.sanitize = true) (hr : ∀ h ∈ e.registry, h.2.Guards)
    (hquoted : ∀ t, Guarded openings (quoted t).value) :
    (items : List Item) → Item.AllEvery Block.IsLevelled items → Guarded openings (e.itemsHtml quoted items).value
  | [], _ => by
    rw [itemsHtml]
    exact guarded_nil
  | i :: r, hitems => by
    rw [itemsHtml]
    exact (guarded_itemHtml he hr hquoted i hitems.1).append
      (guarded_itemsHtml he hr hquoted r hitems.2)

end

end

theorem guarded_quotedHtml (he : e.sanitize = true) (hr : ∀ h ∈ e.registry, h.2.Guards) (t : Text) :
    Guarded openings (e.quotedHtml t).value :=
  guarded_blocksHtml he hr (fun _ => guarded_nil) _
    (Block.allEvery_iff.mpr
      (Document.every_blocksFrom (Document.yields_isLevelled e.structuredData) 0 (lines t) trivial))

/-! ### Documents -/

theorem guarded_footnoteHtml (he : e.sanitize = true) (f : Footnote) :
    Guarded openings (e.footnoteHtml f).value := by
  obtain ⟨-, -, hopen, hback, hend⟩ := guarded_texts.2.2.2.1
  obtain ⟨-, hclass, hbackClass⟩ := guarded_attributeEnds
  exact ((((((hopen.append (guarded_escape _)).append hclass).append
    (guarded_inlineHtml he f.content)).append hback).append (guarded_escape _)).append
    hbackClass).append hend

theorem guarded_footnotesHtml (he : e.sanitize = true) :
    Guarded openings e.footnotesHtml.value := by
  obtain ⟨hopen, hend, -⟩ := guarded_texts.2.2.2.1
  unfold footnotesHtml
  simp only [Report.value_bind, Report.value_mapM, Report.value_pure]
  refine (hopen.append (guarded_flatten fun html hhtml => ?_)).append hend
  obtain ⟨f, -, rfl⟩ := List.mem_map.mp hhtml
  exact guarded_footnoteHtml he f

theorem mem_extend {f : Fragments} {ts : List Text} {t : Text} (h : t ∈ (f.extend ts).pieces) :
    t ∈ f.pieces ∨ t ∈ ts := by
  induction ts generalizing f with
  | nil => exact .inl h
  | cons u ts ih =>
    rcases ih h with h | h
    · unfold Fragments.append at h
      split at h
      · exact .inl h
      · rcases List.mem_cons.mp h with rfl | h
        · exact .inr List.mem_cons_self
        · exact .inl h
    · exact .inr (List.mem_cons_of_mem u h)

theorem guarded_join {ts : List Text} (h : ∀ t ∈ ts, Guarded openings t) :
    Guarded openings ((Fragments.ofList ts).join ['\n']) := by
  refine guarded_intercalate (.cons (by decide) guarded_nil) fun t ht => ?_
  rcases mem_extend (List.mem_reverse.mp ht) with ht | ht
  · cases ht
  · exact h t ht

theorem guarded_render (he : e.sanitize = true) (hr : ∀ h ∈ e.registry, h.2.Guards)
    {blocks : List Block} (hblocks : ∀ b ∈ blocks, b.Every Block.IsLevelled) :
    Guarded openings (e.render blocks).value := by
  have hparts : ∀ html ∈ blocks.map fun b => (e.html b).value, Guarded openings html := by
    intro html hhtml
    obtain ⟨b, hb, rfl⟩ := List.mem_map.mp hhtml
    exact guarded_blockHtml he hr (guarded_quotedHtml he hr) b (hblocks b hb)
  unfold render
  simp only [Report.value_bind, Report.value_mapM]
  split
  · refine guarded_join fun html hhtml => ?_
    rcases List.mem_append.mp hhtml with hhtml | hhtml
    · exact hparts html hhtml
    · obtain rfl := List.mem_singleton.mp hhtml
      exact guarded_footnotesHtml he
  · refine guarded_join fun html hhtml => ?_
    rcases List.mem_append.mp hhtml with hhtml | hhtml
    · exact hparts html hhtml
    · cases hhtml

end Rendering

end Markdown
