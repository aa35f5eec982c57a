import Markdown.Proofs.Outlines

/-!
# Canonical lists

The lists of canonical documents are outlines without breaks, so they are among those that can be read
back from their lines. The lines of all canonical blocks are framed (`Canonical.framed_lines`).
-/

namespace Markdown.Canonical

open Text

variable {b : Block} {ordered : Bool} {start : Int} {items : List Item}

theorem areNumerals_of_areNumbers {count : Nat} (h : areNumbers ordered start count = true) :
    areNumerals ordered start count = true := by
  cases ordered with
  | false => exact h
  | true =>
    simp only [areNumbers, if_true, Bool.and_eq_true] at h
    rw [areNumerals, if_pos rfl, h.1.1, h.2]
    rfl

/-- A list with a canonical form has a first entry. -/
theorem exists_item_of_isList (hlist : isList b = true) (h : isBlock b = true) :
    ∃ ordered start content checked children r,
      b = .list ordered start (.mk content checked children :: r) ∧
      areNumbers ordered start (r.length + 1) = true ∧
      isItem ordered (.mk content checked children) = true ∧ areItems ordered r = true := by
  cases b with
  | list ordered start items =>
    cases items with
    | nil => simp [isBlock] at h
    | cons i r =>
      obtain ⟨content, checked, children⟩ := i
      simp only [isBlock, areItems, Bool.and_eq_true] at h
      exact ⟨_, _, _, _, _, _, rfl, h.1.1, h.2.1, h.2.2⟩
  | _ => cases hlist

mutual

/-- Canonical entries are those of an outline without breaks. -/
theorem areOutlineItems_of_areItems (ordered : Bool) :
    (items : List Item) → areItems ordered items = true →
      areOutlineItems ordered items = true ∧ itemsBreaks items = 0
  | [], _ => ⟨rfl, rfl⟩
  | .mk content checked children :: r, h => by
    rw [areItems_cons, isItem_mk] at h
    obtain ⟨⟨hcontent, hchecked, hlists, hchildren⟩, hr⟩ := h
    obtain ⟨houtlines, hinner⟩ := areOutlines_of_areBlocks children hlists hchildren
    obtain ⟨hentries, hrest⟩ := areOutlineItems_of_areItems ordered r hr
    constructor
    · exact areOutlineItems_cons.mpr ⟨isOutlineItem_mk.mpr ⟨isWrapped_of_isPlain hcontent, hchecked,
        houtlines⟩, hentries⟩
    · exact itemsBreaks_cons.mpr ⟨not_mem_of_isPlain hcontent (by decide), hinner, hrest⟩
termination_by items => sizeOf items

/-- The lists in a canonical entry are outlines without breaks. -/
theorem areOutlines_of_areBlocks :
    (children : List Block) → children.all isList = true → areBlocks children = true →
      areOutlines children = true ∧ childBreaks children = 0
  | [], _, _ => ⟨rfl, rfl⟩
  | b :: r, hlists, h => by
    simp only [areBlocks_cons, List.all_cons, Bool.and_eq_true] at h hlists
    obtain ⟨ordered, start, content, checked, children, items, rfl, hnumbers, hitem, hitems⟩ :=
      exists_item_of_isList hlists.1 h.1
    obtain ⟨hentries, hinner⟩ := areOutlineItems_of_areItems ordered
      (.mk content checked children :: items) (areItems_cons.mpr ⟨hitem, hitems⟩)
    obtain ⟨houtlines, hrest⟩ := areOutlines_of_areBlocks r hlists.2 h.2.2
    constructor
    · exact areOutlines_cons.mpr
        ⟨by simp [isOutline, areNumerals_of_areNumbers hnumbers, hentries], h.2.1, houtlines⟩
    · exact childBreaks_cons.mpr ⟨by rw [breaks, hinner], hrest⟩
termination_by children => sizeOf children

end

/-- A list with a canonical form is an outline without breaks. -/
theorem isOutline_of_isBlock (hlist : isList b = true) (h : isBlock b = true) :
    isOutline b = true ∧ breaks b = 0 := by
  obtain ⟨houtlines, hbreaks⟩ := areOutlines_of_areBlocks [b] (by simp [hlist])
    (areBlocks_cons.mpr ⟨h, rfl, rfl⟩)
  exact ⟨(areOutlines_cons.mp houtlines).1, (childBreaks_cons.mp hbreaks).1⟩

/-- A list with a canonical form can be read back as it is, and it is written as an outline. -/
theorem isTree_of_isBlock (hlist : isList b = true) (h : isBlock b = true) :
    isTree b = true ∧ recount b = b ∧ outlineLines b = blockLines b := by
  obtain ⟨houtline, hbreaks⟩ := isOutline_of_isBlock hlist h
  exact isTree_of_isOutline houtline hbreaks

/-! ### The lines of blocks are framed -/

theorem framed_list (h : isBlock (.list ordered start items) = true) :
    Framed (blockLines (.list ordered start items)) := by
  obtain ⟨-, -, hlines⟩ := isTree_of_isBlock rfl h
  simp only [isBlock, Bool.and_eq_true, Bool.not_eq_true', List.isEmpty_eq_false_iff] at h
  rw [← hlines, outlineLines]
  exact framed_outlineItemsLines ordered start.toNat items h.1.2
    (areOutlineItems_of_areItems ordered items h.2).1

mutual

theorem framed_blockLines : (b : Block) → isBlock b = true → Framed (blockLines b)
  | .heading level content, h => by
    simp only [isBlock, Bool.and_eq_true, decide_eq_true_eq] at h
    exact framed_heading (by omega) h.2
  | .paragraph content, h => framed_behind [] h (by simp) rfl
  | .rule, _ => by
    refine framed_word (by decide) fun c hc => ?_
    rw [List.eq_of_mem_replicate (n := 3) hc]
    decide
  | .code language content _, h => by
    simp only [isBlock, Bool.and_eq_true] at h
    exact framed_code h.1.1 h.1.2
  | .list ordered start items, h => framed_list h
  | .table headers alignments rows, h => by
    simp only [isBlock, Bool.and_eq_true] at h
    refine framed_table fun row hrow t ht c hc => ?_
    have hvalid : isRow row = true := by
      rcases List.mem_cons.mp hrow with rfl | hrow
      · exact h.1.1
      · exact List.all_eq_true.mp h.2 row hrow
    exact isPrintable_of_mem ((isRow_iff.mp hvalid).2 t ht) hc
  | .definitions items, h => by
    simp only [isBlock, Bool.and_eq_true, Bool.not_eq_true', List.isEmpty_eq_false_iff] at h
    exact framed_definitions h.1 h.2
  | .quote _ children, h => by
    simp only [isBlock, Bool.and_eq_true, Bool.not_eq_true', List.isEmpty_eq_false_iff] at h
    exact (framed_lines children h.1.2 h.2).quoted
  | .footnote _ _, h => by cases h
  | .foreign _, h => by cases h

theorem framed_lines : (bs : List Block) → bs ≠ [] → areBlocks bs = true → Framed (lines bs)
  | [], hne, _ => absurd rfl hne
  | [b], _, h => by
    rw [areBlocks_cons] at h
    exact framed_blockLines b h.1
  | b :: c :: r, _, h => by
    rw [areBlocks_cons] at h
    have hrest := framed_lines (c :: r) (by simp) h.2.2
    apply (framed_blockLines b h.1).append
    · intro l hl
      rcases List.mem_cons.mp hl with rfl | hl
      · simp
      · exact hrest.printable l hl
    · exact .inr (closes_append [[]] hrest.closes)

end

end Markdown.Canonical
