import Markdown.Proofs.BlockTrip
import Markdown.Proofs.Columns
import Mathlib.Tactic.Ring

/-!
# Lists on their way through HTML

A break in the text of an entry is a line break in HTML, and this becomes two spaces at the end of a
line. The next line should be indented behind the mark of the entry, as the lists in the entry are, but
it is not, so it does not continue the entry when it is read. `Canonical.answer_trip_outline` says that
a list comes back exactly if there are no breaks in it. That it does not come back otherwise is a matter
of columns: its lines are indented by two columns less for each break than the list needs
(`indents_outlineItemsLines`), and what is read needs no more than the lines have.
-/

namespace Markdown.Canonical

open Document
open FromHtml (blockNode closeLines)
open Text

variable {t b : Block} {l : Text} {ls : List Text}

/-! ### The columns of outlines -/

theorem indents_inset (depth : Nat) (ls : List Text) :
    Listing.indents depth (ls.map inset) = Listing.indents (depth + 1) ls := by
  induction ls with
  | nil => rfl
  | cons l ls ih =>
    have hinset : Line.indent (inset l) = Line.indent l + Listing.nesting := rfl
    rw [List.map_cons, Listing.indents, Listing.indents, ih, hinset, Nat.mul_succ]
    omega

/-- Lines that are not indented have the columns of their depth. -/
theorem indents_hardLines (depth : Nat) (h : ∀ l ∈ ls, ∃ c r, l = c :: r ∧ isBlank c = false) :
    Listing.indents depth (hardLines ls) = ls.length * (Listing.nesting * depth) := by
  have hspace : ∀ l : Text, (∃ c r, l = c :: r ∧ isBlank c = false) →
      ∃ c r, l ++ [' ', ' '] = c :: r ∧ isBlank c = false := by
    rintro _ ⟨c, r, rfl, hc⟩
    exact ⟨c, r ++ [' ', ' '], rfl, hc⟩
  have hindent : ∀ l : Text, (∃ c r, l = c :: r ∧ isBlank c = false) → Line.indent l = 0 := by
    rintro _ ⟨c, r, rfl, hc⟩
    exact indent_shift 0 r hc
  induction ls with
  | nil => simp [hardLines, Listing.indents]
  | cons l r ih =>
    obtain ⟨hl, hr⟩ := List.forall_mem_cons.mp h
    cases r with
    | nil => simp [hardLines, Listing.indents, hindent l hl]
    | cons k r =>
      rw [hardLines, Listing.indents, hindent _ (hspace l hl), ih hr]
      simp only [List.length_cons]
      ring

mutual

/-- The lines of an outline are indented by two columns less for each break than its entries need. -/
theorem indents_outlineItemsLines (ordered : Bool) (number depth : Nat) :
    (items : List Item) → areOutlineItems ordered items = true →
      Listing.indents depth (outlineItemsLines ordered number items) +
          Listing.nesting * itemsBreaks items = Listing.itemsColumns depth items
  | [], _ => rfl
  | .mk content checked children :: r, h => by
    rw [areOutlineItems_cons, isOutlineItem_mk] at h
    obtain ⟨⟨hcontent, -, hchildren⟩, hr⟩ := h
    obtain ⟨l, ls, hlines, hl, hls⟩ := exists_lines_of_isWrapped hcontent
    have hinner := indents_outlineChildLines (depth + 1) children hchildren
    have hrest := indents_outlineItemsLines ordered (number + 1) depth r hr
    have hvisible : ∀ k ∈ markerLine ordered number checked l :: ls,
        ∃ c r, k = c :: r ∧ isBlank c = false := by
      refine List.forall_mem_cons.mpr ⟨markerLine_eq_cons ordered number checked l, fun k hk => ?_⟩
      obtain ⟨c, r, rfl, hc⟩ := exists_cons_of_isPlain (hls k hk)
      exact ⟨c, r, rfl, isBlank_of_isAsciiLetter hc⟩
    have hlength : (markerLine ordered number checked l :: ls).length = content.count '\n' + 1 := by
      have hcount := length_lines content
      rwa [hlines] at hcount
    rw [outlineItemsLines, outlineItemLines, lines_markerLine, hlines, List.modifyHead_cons,
      Listing.indents_append, Listing.indents_append, indents_hardLines depth hvisible, hlength,
      indents_inset]
    simp only [itemsBreaks, itemBreaks, Listing.itemsColumns, Listing.itemColumns]
    rw [← hinner, ← hrest]
    ring
termination_by items => sizeOf items

theorem indents_outlineChildLines (depth : Nat) :
    (bs : List Block) → areOutlines bs = true →
      Listing.indents depth (outlineChildLines bs) + Listing.nesting * childBreaks bs =
        Listing.childColumns depth bs
  | [], _ => rfl
  | b :: r, h => by
    rw [areOutlines_cons] at h
    obtain ⟨ordered, start, items, hb, -, -, hitems⟩ := exists_items_of_isOutline h.1
    have hlist := indents_outlineItemsLines ordered start.toNat depth items hitems
    have hrest := indents_outlineChildLines depth r h.2.2
    subst hb
    rw [outlineChildLines, outlineLines, Listing.indents_append, childBreaks, breaks,
      Listing.childColumns, Listing.columns, ← hlist, ← hrest]
    ring
termination_by bs => sizeOf bs

end

/-! ### Reading -/

/-- Only the recogniser of lists finds lists. -/
theorem recognise_of_isList {structured : Bool} {number : Nat} {line : Text} {rest : List Text}
    (h : isList (matchAt structured number line rest).block = true) :
    Listing.recognise number line rest = some (matchAt structured number line rest) := by
  unfold matchAt at h ⊢
  cases hfound : (Shape.priority structured).findSome? fun s => recognise structured s number line rest with
  | none =>
    rw [hfound] at h
    cases h
  | some m =>
    rw [hfound, Option.getD_some] at h
    rw [Option.getD_some]
    obtain ⟨shape, -, hm⟩ := List.exists_of_findSome?_eq_some hfound
    by_cases hquote : shape = .quote
    · subst hquote
      obtain ⟨_, -, rfl⟩ := Option.map_eq_some_iff.mp hm
      cases h
    · rw [recognise_of_ne_quote structured hquote] at hm
      by_cases hshape : shape = .list
      · subst hshape
        exact hm
      · -- All other shapes make blocks that hold no others.
        have hleaf := Shape.isLeaf_of_recogniser hshape hm
        cases hb : m.block with
        | list =>
          rw [hb] at hleaf
          cases hleaf
        | _ =>
          rw [hb] at h
          cases h

/-- A list that lines are split into needs no more columns than they have. -/
theorem columns_le_of_blocks {structured : Bool} {line : Text} {rest : List Text}
    (hline : allBlank line = false) (hclean : ∀ l ∈ line :: rest, '\n' ∉ l) (hlist : isList b = true)
    (h : (blocks structured (line :: rest)).answer = .ok [b]) :
    Listing.columns 0 b ≤ Listing.indents 0 (line :: rest) := by
  have hvalue := Report.value_of_answer h
  rw [blocks, blocksFrom_cons structured 0 rest hline] at hvalue
  simp only [Report.value_bind, Report.value_pure] at hvalue
  obtain rfl : (matchAt structured 0 line rest).block = b := (List.cons.inj hvalue).1
  exact Listing.columns_recognise_le (recognise_of_isList hlist) hclean

/-! ### The trip -/

/-- What comes back of an outline is what its lines are split into. -/
theorem answer_trip_eq_blocks (shown read : Config) (h : isOutline b = true) :
    (trip shown read b).answer = (blocks read.structuredData (outlineLines b)).answer := by
  have hnode : blockNode none .document (node (fun _ _ => []) b) = pure (closeLines (outlineLines b)) :=
    blockNode_outline .document h
  obtain ⟨ordered, start, items, rfl, hne, -, hitems⟩ := exists_items_of_isOutline h
  have hhtml : ((shown.rendering Highlight.Registry.builtin .empty).html
      (.list ordered start items)).answer =
        .ok (node (fun _ _ => []) (.list ordered start items)).write :=
    answer_listHtml ordered start (answer_itemsHtml _ _ ordered items hitems)
  have hwritten : (node (fun _ _ => []) (.list ordered start items)).isWritten false = true :=
    isWritten_element (isContainer_listTag ordered start _)
      (areWritten_elements (isWritten_itemNodes _ ordered items hitems))
  exact answer_trip_of_lines read hhtml hwritten rfl hnode
    (framed_outlineItemsLines ordered start.toNat items hne hitems)
    (areSolid_outlineItemsLines start.toNat hitems) (isKept_outlineItemsLines start.toNat hitems)

/-- The first line of an outline is not blank. -/
theorem exists_cons_outlineLines (h : isOutline b = true) :
    ∃ line rest, outlineLines b = line :: rest ∧ allBlank line = false := by
  obtain ⟨ordered, start, items, rfl, hne, -, hitems⟩ := exists_items_of_isOutline h
  have hopens := (framed_outlineItemsLines ordered start.toNat items hne hitems).opens
  rw [outlineLines]
  cases hlines : outlineItemsLines ordered start.toNat items with
  | nil =>
    rw [hlines] at hopens
    cases hopens
  | cons line rest =>
    refine ⟨line, rest, rfl, ?_⟩
    cases line with
    | nil =>
      rw [hlines] at hopens
      cases hopens
    | cons c r =>
      have hc : isBlank c = false := by simpa [hlines, opens] using hopens
      exact allBlank_shift 0 r hc

/-- An outline without breaks is split into itself. -/
theorem blocks_outlineLines (structured : Bool) (h : isOutline b = true) (hbreaks : breaks b = 0) :
    blocks structured (outlineLines b) = pure [b] := by
  obtain ⟨line, rest, hlines, hline⟩ := exists_cons_outlineLines h
  obtain ⟨-, -, hsame⟩ := isTree_of_isOutline h hbreaks
  obtain ⟨ordered, start, items, rfl, -⟩ := exists_items_of_isOutline h
  have hprinted : itemsLines ordered start.toNat items = line :: rest := by
    rw [← hlines, hsame, blockLines]
  have hinner : EndsInner 0 [] := fun column _ ordered' => ends_nil column ordered'
  have hmatch := matchAt_list structured 0 h hbreaks (ends_nil 0 ordered) hinner
    (by rw [List.append_nil, hprinted])
  rw [hlines]
  refine blocksFrom_of_matchAt hline hmatch fun k => ?_
  rw [hprinted, List.length_cons, Nat.add_sub_cancel, List.drop_length, blocksFrom_nil]

/-- What outlines are split into is another list if they have breaks: it needs fewer columns. -/
theorem breaks_eq_zero_of_blocks {structured : Bool} (h : isOutline b = true)
    (hback : (blocks structured (outlineLines b)).answer = .ok [b]) : breaks b = 0 := by
  obtain ⟨line, rest, hlines, hline⟩ := exists_cons_outlineLines h
  obtain ⟨ordered, start, items, rfl, -, -, hitems⟩ := exists_items_of_isOutline h
  have hclean : ∀ l ∈ line :: rest, '\n' ∉ l := by
    rw [← hlines, outlineLines]
    exact fun l hl => (areSolid_outlineItemsLines start.toNat hitems l hl).2
  rw [hlines] at hback
  -- each break lacks the columns of its line, so with breaks the printed lines have too few
  have hcolumns := columns_le_of_blocks hline hclean rfl hback
  have hprinted := indents_outlineItemsLines ordered start.toNat 0 items hitems
  rw [← hlines, outlineLines, Listing.columns] at hcolumns
  rw [Listing.nesting] at hprinted
  rw [breaks]
  omega

/-- **Lists survive HTML if they have no breaks.** A list of plain lines, with lists of the same sort in
its entries at any depth, comes back exactly if no entry has more than one line. -/
theorem answer_trip_outline (shown read : Config) (h : isOutline b = true) :
    (trip shown read b).answer = .ok [b] ↔ breaks b = 0 := by
  rw [answer_trip_eq_blocks shown read h]
  constructor
  · intro hback
    exact breaks_eq_zero_of_blocks h hback
  · intro hbreaks
    rw [blocks_outlineLines read.structuredData h hbreaks]
    rfl

/-- A list of tasks, with numbers and bullets inside its first entry. -/
def taskOutline : Block :=
  .list false 1
    [.mk "Pack".toList (some true)
      [.list true 9 [.mk "two shirts".toList none [], .mk "a book".toList none []],
        .list false 1 [.mk "Map".toList (some false) []]],
      .mk "Leave".toList none []]

theorem answer_trip_outline_tasks :
    isOutline taskOutline = true ∧ breaks taskOutline = 0 ∧
      (trip {} {} taskOutline).answer = .ok [taskOutline] := by
  have houtline : isOutline taskOutline = true := by decide
  have hbreaks : breaks taskOutline = 0 := by decide
  exact ⟨houtline, hbreaks, (answer_trip_outline {} {} houtline).mpr hbreaks⟩

/-- A list with an entry of several lines does not come back. -/
theorem answer_trip_ne_of_breaks {b : Block} (h : isOutline b = true) (hbreaks : breaks b ≠ 0) :
    (trip {} {} b).answer ≠ .ok [b] := by
  intro hback
  rw [answer_trip_eq_blocks {} {} h] at hback
  exact hbreaks (breaks_eq_zero_of_blocks h hback)

/-- An entry of two lines, alone and inside another entry. The second line leaves the entry. -/
theorem trip_outline_changed :
    (isOutline (.list false 1 [.mk "a\nb".toList none []]) = true ∧
      (trip {} {} (.list false 1 [.mk "a\nb".toList none []])).answer ≠
        .ok [.list false 1 [.mk "a\nb".toList none []]]) ∧
    (isOutline (.list true 1 [.mk "a".toList none [.list false 1 [.mk "b\nc".toList none []]]]) = true ∧
      (trip {} {} (.list true 1 [.mk "a".toList none
        [.list false 1 [.mk "b\nc".toList none []]]])).answer ≠
        .ok [.list true 1 [.mk "a".toList none [.list false 1 [.mk "b\nc".toList none []]]]]) :=
  ⟨⟨by decide, answer_trip_ne_of_breaks (by decide) (by decide)⟩,
    ⟨by decide, answer_trip_ne_of_breaks (by decide) (by decide)⟩⟩

end Markdown.Canonical
