import Markdown.Proofs.PrintedListing

/-!
# Outlines

An outline is a list whose entries have texts of plain lines and hold outlines, and nothing else.
`outlineLines` are the lines that the conversion from HTML writes for it. A break in a text is written
as two spaces at the end of a line, and the next line stands at the column of the mark, not behind it.
So an outline without breaks is written as any other list, and it is one that can be read back
(`isTree_of_isOutline`).
-/

namespace Markdown.Canonical

open FromHtml (lineBreak maxListDigits)
open Inline
open Text

variable {t l : Text} {ls : List Text} {b : Block} {ordered : Bool} {start : Int} {count : Nat}

/-! ### Texts of plain lines -/

/-- A text of one or more plain lines. -/
def isWrapped (t : Text) : Bool :=
  (Text.lines t).all isPlain

theorem isPlain_of_mem_lines (h : isWrapped t = true) : ∀ l ∈ Text.lines t, isPlain l = true :=
  List.all_eq_true.mp h

theorem isWrapped_of_isPlain (h : isPlain t = true) : isWrapped t = true := by
  rw [isWrapped, lines_of_not_mem (not_mem_of_isPlain h (by decide)), List.all_cons, h]
  rfl

theorem isPlain_of_isWrapped (h : isWrapped t = true) (hline : '\n' ∉ t) : isPlain t = true :=
  isPlain_of_mem_lines h t (by rw [lines_of_not_mem hline]; exact List.mem_cons_self)

/-- A text of plain lines begins with one. -/
theorem exists_lines_of_isWrapped (h : isWrapped t = true) :
    ∃ l ls, Text.lines t = l :: ls ∧ isPlain l = true ∧ ∀ k ∈ ls, isPlain k = true := by
  obtain ⟨l, ls, hlines⟩ := exists_cons_lines t
  have hplain := isPlain_of_mem_lines h
  rw [hlines] at hplain
  obtain ⟨hl, hls⟩ := List.forall_mem_cons.mp hplain
  exact ⟨l, ls, hlines, hl, hls⟩

/-- A text of plain lines has no space before a line feed. -/
theorem not_infix_of_isWrapped (h : isWrapped t = true) : ¬ [' ', '\n'] <:+: t := by
  rintro ⟨s, r, rfl⟩
  have hsplit : Text.lines (s ++ [' ', '\n'] ++ r) = Text.lines (s ++ [' ']) ++ Text.lines r := by
    have hjoin : s ++ [' ', '\n'] ++ r = (s ++ [' ']) ++ '\n' :: r := by simp
    rw [hjoin]
    exact List.splitOn_append_cons_self (s ++ [' ']) r
  have hframed : Framed (Text.lines (s ++ [' '])) := by
    refine framed_of_forall (lines_ne_nil _) fun l hl => ?_
    exact framed_behind [] (isPlain_of_mem_lines h l (hsplit ▸ List.mem_append_left _ hl)) (by simp) rfl
  have hlast := getLast?_unlines hframed.closes
  rw [unlines_lines] at hlast
  simp [isBlank] at hlast

/-- Texts of plain lines are rendered as they are. -/
theorem render_of_isWrapped (h : isWrapped t = true) (s : References) (sanitize : Bool) :
    Inline.render s sanitize t = pure t := by
  have hmild : ∀ c ∈ t, isMild c = true := by
    intro c hc
    rw [← unlines_lines t] at hc
    exact forall_mem_intercalate (P := fun c => isMild c = true) (List.forall_mem_singleton.mpr rfl)
      (fun l hl d hd => isMild_of_isTextChar (isTextChar_of_mem (isPlain_of_mem_lines h l hl) hd)) c hc
  have hbreaks : replaceBy hardBreakRule t = t := by
    refine replaceBy_eq_self_of_not_infix (fun before c r hit hhit => ?_) (not_infix_of_isWrapped h)
    obtain ⟨spaces, rest, htakes, -, hne, hspaces⟩ := hardBreakRule_eq_some hhit
    obtain ⟨spaces, d, rfl⟩ := (List.eq_nil_or_concat spaces).resolve_left hne
    obtain rfl := hspaces d (by simp)
    rw [htakes.split]
    exact ⟨' ' :: spaces, rest, by simp⟩
  exact render_of_isMild s sanitize hmild hbreaks

/-- Lines with two spaces at the end of all but the last. -/
def hardLines : List Text → List Text
  | [] => []
  | [l] => [l]
  | l :: k :: r => (l ++ [' ', ' ']) :: hardLines (k :: r)

theorem hardLines_ne_nil (h : ls ≠ []) : hardLines ls ≠ [] := by
  match ls with
  | [] => exact absurd rfl h
  | [l] => simp [hardLines]
  | l :: k :: r => simp [hardLines]

theorem unlines_hardLines (ls : List Text) : unlines (hardLines ls) = lineBreak.intercalate ls := by
  induction ls with
  | nil => rfl
  | cons l r ih =>
    cases r with
    | nil => simp [hardLines, unlines]
    | cons k r =>
      rw [hardLines, unlines_cons _ (hardLines_ne_nil (by simp)), ih, List.intercalate_cons_cons]
      simp [lineBreak]

theorem hardLines_modifyHead {f : Text → Text} (hf : ∀ l, f (l ++ [' ', ' ']) = f l ++ [' ', ' '])
    (ls : List Text) : hardLines (ls.modifyHead f) = (hardLines ls).modifyHead f := by
  match ls with
  | [] => rfl
  | [l] => rfl
  | l :: k :: r => simp [hardLines, hf]

/-- What holds of lines, with and without spaces at the end, holds of all of them. -/
theorem forall_mem_hardLines {P : Text → Prop} (hspace : ∀ l, P l → P (l ++ [' ', ' ']))
    (h : ∀ l ∈ ls, P l) : ∀ l ∈ hardLines ls, P l := by
  induction ls with
  | nil => exact h
  | cons l r ih =>
    obtain ⟨hl, hr⟩ := List.forall_mem_cons.mp h
    cases r with
    | nil => exact h
    | cons k r => exact List.forall_mem_cons.mpr ⟨hspace l hl, ih hr⟩

theorem framed_hardLines (hl : Framed [l]) (hls : ∀ k ∈ ls, Framed [k]) :
    Framed (hardLines (l :: ls)) := by
  induction ls generalizing l with
  | nil => exact hl
  | cons k r ih =>
    obtain ⟨hk, hr⟩ := List.forall_mem_cons.mp hls
    have hrest := ih hk hr
    refine ⟨?_, closes_append [l ++ [' ', ' ']] hrest.closes, ?_⟩
    · have hopens := hl.opens
      cases l with
      | nil => cases hopens
      | cons c l => exact hopens
    · refine List.forall_mem_cons.mpr ⟨fun c hc => ?_, hrest.printable⟩
      rcases List.mem_append.mp hc with hc | hc
      · exact hl.printable l List.mem_cons_self c hc
      · exact isPrintable_of_all (s := [' ', ' ']) (by decide) hc

/-! ### Lists of such texts -/

/-- Whether entries can be numbered from a start: every number has a numeral that may be written.
Bullets count from one. -/
def areNumerals (ordered : Bool) (start : Int) (count : Nat) : Bool :=
  if ordered then
    0 ≤ start && (ofNat (start.toNat + (count - 1))).length ≤ maxListDigits
  else start = 1

mutual

/-- An outline. -/
def isOutline : Block → Bool
  | .list ordered start items =>
    areNumerals ordered start items.length && !items.isEmpty && areOutlineItems ordered items
  | _ => false

/-- Outlines side by side in an entry. -/
def areOutlines : List Block → Bool
  | [] => true
  | b :: r => isOutline b && standsApart b r && areOutlines r

/-- An entry of an outline. Only bullets have boxes. -/
def isOutlineItem (ordered : Bool) : Item → Bool
  | .mk content checked children =>
    isWrapped content && (checked.isNone || !ordered) && areOutlines children

/-- Entries of an outline. -/
def areOutlineItems (ordered : Bool) : List Item → Bool
  | [] => true
  | i :: r => isOutlineItem ordered i && areOutlineItems ordered r

end

mutual

/-- How many breaks there are in the texts of a list, at all levels. -/
def breaks : Block → Nat
  | .list _ _ items => itemsBreaks items
  | _ => 0

/-- The breaks in the lists of an entry. -/
def childBreaks : List Block → Nat
  | [] => 0
  | b :: r => breaks b + childBreaks r

/-- The breaks in an entry. -/
def itemBreaks : Item → Nat
  | .mk content _ children => content.count '\n' + childBreaks children

/-- The breaks in some entries. -/
def itemsBreaks : List Item → Nat
  | [] => 0
  | i :: r => itemBreaks i + itemsBreaks r

end

mutual

/-- The lines that are written for an outline. -/
def outlineLines : Block → List Text
  | .list ordered start items => outlineItemsLines ordered start.toNat items
  | _ => []

/-- The lines of the outlines in an entry. -/
def outlineChildLines : List Block → List Text
  | [] => []
  | b :: r => outlineLines b ++ outlineChildLines r

/-- The lines of an entry with a number. -/
def outlineItemLines (ordered : Bool) (number : Nat) : Item → List Text
  | .mk content checked children =>
    hardLines (Text.lines (markerLine ordered number checked content)) ++
      (outlineChildLines children).map inset

/-- The lines of entries, numbered from the given number on. -/
def outlineItemsLines (ordered : Bool) (number : Nat) : List Item → List Text
  | [] => []
  | i :: r => outlineItemLines ordered number i ++ outlineItemsLines ordered (number + 1) r

end

theorem areOutlines_cons {r : List Block} :
    areOutlines (b :: r) = true ↔
      isOutline b = true ∧ standsApart b r = true ∧ areOutlines r = true := by
  simp only [areOutlines, Bool.and_eq_true, and_assoc]

theorem isOutlineItem_mk {content : Text} {checked : Option Bool} {children : List Block} :
    isOutlineItem ordered (.mk content checked children) = true ↔
      isWrapped content = true ∧ (checked.isNone || !ordered) = true ∧
        areOutlines children = true := by
  simp only [isOutlineItem, Bool.and_eq_true, and_assoc]

theorem areOutlineItems_cons {i : Item} {r : List Item} :
    areOutlineItems ordered (i :: r) = true ↔
      isOutlineItem ordered i = true ∧ areOutlineItems ordered r = true := by
  simp only [areOutlineItems, Bool.and_eq_true]

/-- An outline is a list with entries. -/
theorem exists_items_of_isOutline (h : isOutline b = true) :
    ∃ ordered start items, b = .list ordered start items ∧ items ≠ [] ∧
      areNumerals ordered start items.length = true ∧ areOutlineItems ordered items = true := by
  cases b with
  | list ordered start items =>
    simp only [isOutline, Bool.and_eq_true, Bool.not_eq_true', List.isEmpty_eq_false_iff] at h
    exact ⟨ordered, start, items, rfl, h.1.2, h.1.1, h.2⟩
  | _ => cases h

/-! ### Lines -/

theorem newline_notMem_mark_box (ordered : Bool) (number : Nat) (checked : Option Bool) :
    '\n' ∉ mark ordered number ++ box checked := by
  have hbox : '\n' ∉ box checked := by rcases checked with _ | _ | _ <;> decide
  intro hmem
  rcases List.mem_append.mp hmem with hmem | hmem
  · cases ordered with
    | false =>
      have hbullet : '\n' ∉ ['-', ' '] := by decide
      exact hbullet hmem
    | true =>
      rcases List.mem_append.mp hmem with hmem | hmem
      · exact absurd (isAsciiDigit_of_mem_ofNat hmem) (by decide)
      · exact absurd hmem (by decide)
  · exact hbox hmem

/-- The mark stands in front of the first line of a text. -/
theorem lines_markerLine (ordered : Bool) (number : Nat) (checked : Option Bool) (content : Text) :
    Text.lines (markerLine ordered number checked content) =
      (Text.lines content).modifyHead (markerLine ordered number checked) := by
  have hsplit := lines_append_of_not_mem (newline_notMem_mark_box ordered number checked) content
  rw [markerLine, ← List.append_assoc, hsplit]
  congr 1
  funext l
  rw [markerLine, List.append_assoc]

mutual

/-- What holds of the lines of texts, with a mark and with spaces around them, holds of all lines of an
outline. -/
theorem forall_mem_outlineItemsLines {P : Text → Prop}
    (hmarker : ∀ ordered number checked l, isPlain l = true → P (markerLine ordered number checked l))
    (hplain : ∀ l, isPlain l = true → P l) (hspace : ∀ l, P l → P (l ++ [' ', ' ']))
    (hinset : ∀ l, P l → P (inset l)) (ordered : Bool) (number : Nat) :
    (items : List Item) → areOutlineItems ordered items = true →
      ∀ l ∈ outlineItemsLines ordered number items, P l
  | [], _ => by simp [outlineItemsLines]
  | .mk content checked children :: r, h => by
    rw [areOutlineItems_cons, isOutlineItem_mk] at h
    obtain ⟨⟨hcontent, -, hchildren⟩, hr⟩ := h
    obtain ⟨l, ls, hlines, hl, hls⟩ := exists_lines_of_isWrapped hcontent
    have hinner := forall_mem_outlineChildLines hmarker hplain hspace hinset children hchildren
    have hrest := forall_mem_outlineItemsLines hmarker hplain hspace hinset ordered (number + 1) r hr
    rw [outlineItemsLines, outlineItemLines, lines_markerLine, hlines, List.modifyHead_cons]
    intro k hk
    rcases List.mem_append.mp hk with hk | hk
    · rcases List.mem_append.mp hk with hk | hk
      · refine forall_mem_hardLines hspace (List.forall_mem_cons.mpr ⟨?_, ?_⟩) k hk
        · exact hmarker ordered number checked l hl
        · exact fun j hj => hplain j (hls j hj)
      · obtain ⟨j, hj, rfl⟩ := List.mem_map.mp hk
        exact hinset j (hinner j hj)
    · exact hrest k hk
termination_by items => sizeOf items

theorem forall_mem_outlineChildLines {P : Text → Prop}
    (hmarker : ∀ ordered number checked l, isPlain l = true → P (markerLine ordered number checked l))
    (hplain : ∀ l, isPlain l = true → P l) (hspace : ∀ l, P l → P (l ++ [' ', ' ']))
    (hinset : ∀ l, P l → P (inset l)) :
    (bs : List Block) → areOutlines bs = true → ∀ l ∈ outlineChildLines bs, P l
  | [], _ => by simp [outlineChildLines]
  | b :: r, h => by
    rw [areOutlines_cons] at h
    obtain ⟨ordered, start, items, hb, -, -, hitems⟩ := exists_items_of_isOutline h.1
    have hlist :=
      forall_mem_outlineItemsLines hmarker hplain hspace hinset ordered start.toNat items hitems
    have hrest := forall_mem_outlineChildLines hmarker hplain hspace hinset r h.2.2
    subst hb
    intro l hl
    rcases List.mem_append.mp hl with hl | hl
    · exact hlist l hl
    · exact hrest l hl
termination_by bs => sizeOf bs

end

mutual

theorem framed_outlineItemsLines (ordered : Bool) (number : Nat) :
    (items : List Item) → items ≠ [] → areOutlineItems ordered items = true →
      Framed (outlineItemsLines ordered number items)
  | [], hne, _ => absurd rfl hne
  | .mk content checked children :: r, _, h => by
    rw [areOutlineItems_cons, isOutlineItem_mk] at h
    obtain ⟨⟨hcontent, -, hchildren⟩, hr⟩ := h
    obtain ⟨l, ls, hlines, hl, hls⟩ := exists_lines_of_isWrapped hcontent
    have htext : Framed (hardLines (markerLine ordered number checked l :: ls)) :=
      framed_hardLines (framed_markerLine ordered number checked hl) fun k hk =>
        framed_behind [] (hls k hk) (by simp) rfl
    have hinner : children ≠ [] → Framed (outlineChildLines children) := fun hne =>
      framed_outlineChildLines children hne hchildren
    have hrest : r ≠ [] → Framed (outlineItemsLines ordered (number + 1) r) := fun hne =>
      framed_outlineItemsLines ordered (number + 1) r hne hr
    have hitem : Framed (outlineItemLines ordered number (.mk content checked children)) := by
      rw [outlineItemLines, lines_markerLine, hlines, List.modifyHead_cons]
      by_cases hne : children = []
      · subst hne
        simpa [outlineChildLines] using htext
      · exact htext.append_inset (hinner hne)
    rw [outlineItemsLines]
    by_cases hne : r = []
    · subst hne
      simpa [outlineItemsLines] using hitem
    · exact hitem.append (hrest hne).printable (.inr (hrest hne).closes)
termination_by items => sizeOf items

theorem framed_outlineChildLines :
    (bs : List Block) → bs ≠ [] → areOutlines bs = true → Framed (outlineChildLines bs)
  | [], hne, _ => absurd rfl hne
  | b :: r, _, h => by
    rw [areOutlines_cons] at h
    obtain ⟨ordered, start, items, hb, hne, -, hitems⟩ := exists_items_of_isOutline h.1
    have hlist := framed_outlineItemsLines ordered start.toNat items hne hitems
    have hrest : r ≠ [] → Framed (outlineChildLines r) := fun hne =>
      framed_outlineChildLines r hne h.2.2
    subst hb
    rw [outlineChildLines, outlineLines]
    by_cases hne : r = []
    · subst hne
      simpa [outlineChildLines] using hlist
    · exact hlist.append (hrest hne).printable (.inr (hrest hne).closes)
termination_by bs => sizeOf bs

end

/-! ### Numbers -/

theorem nonneg_of_areNumerals (h : areNumerals true start count = true) : 0 ≤ start := by
  simp only [areNumerals, if_true, Bool.and_eq_true, decide_eq_true_eq] at h
  exact h.1

/-- Smaller numbers have shorter numerals. -/
theorem length_ofNat_le_of_areNumerals {n : Nat} (h : areNumerals true start count = true)
    (hn : n < start.toNat + count) : (ofNat n).length ≤ maxListDigits := by
  simp only [areNumerals, if_true, Bool.and_eq_true, decide_eq_true_eq] at h
  have hlast := h.2
  rw [ofNat, Nat.length_toDigits_le_iff (by decide) (by decide)] at hlast ⊢
  omega

/-- The numbers of outlines are read, and their bullets count from one. -/
theorem isStart_of_areNumerals (hcount : 0 < count) (h : areNumerals ordered start count = true) :
    isStart ordered start = true ∧ (if ordered then start else 1) = start := by
  cases ordered with
  | false => exact ⟨rfl, by simpa [areNumerals, eq_comm] using h⟩
  | true =>
    have hshort : (ofNat start.toNat).length ≤ Json.maxDigits :=
      length_ofNat_le_of_areNumerals h (by omega)
    exact ⟨by simp [isStart, nonneg_of_areNumerals h, hshort], rfl⟩

/-! ### Outlines without breaks -/

theorem itemsBreaks_cons {content : Text} {checked : Option Bool} {children : List Block}
    {r : List Item} :
    itemsBreaks (.mk content checked children :: r) = 0 ↔
      '\n' ∉ content ∧ childBreaks children = 0 ∧ itemsBreaks r = 0 := by
  rw [itemsBreaks, itemBreaks, Nat.add_eq_zero_iff, Nat.add_eq_zero_iff, List.count_eq_zero, and_assoc]

theorem childBreaks_cons {r : List Block} :
    childBreaks (b :: r) = 0 ↔ breaks b = 0 ∧ childBreaks r = 0 := by
  rw [childBreaks, Nat.add_eq_zero_iff]

theorem isEntryText_of_isPlain (h : isPlain t = true) : isEntryText t = true :=
  isEntryText_iff.mpr ⟨not_mem_of_isPlain h (by decide), trim_of_isPlain h⟩

theorem taskBox?_plain (h : isPlain t = true) : Line.taskBox? t = none := by
  unfold Line.taskBox?
  split
  · exact absurd List.mem_cons_self (not_mem_of_isPlain h (by decide))
  · rfl

theorem isBoxed_of_isPlain {checked : Option Bool} (hchecked : (checked.isNone || !ordered) = true)
    (h : isPlain t = true) : isBoxed ordered checked t = true := by
  cases ordered with
  | true => simpa [isBoxed] using hchecked
  | false => simp [isBoxed, taskBox?_plain h]

mutual

/-- Without breaks, entries of outlines are written as other entries, and can be read back. -/
theorem areTreeItems_of_areOutlineItems (ordered : Bool) :
    (items : List Item) → areOutlineItems ordered items = true → itemsBreaks items = 0 →
      areTreeItems ordered items = true ∧ recountItems items = items ∧
        ∀ number, outlineItemsLines ordered number items = itemsLines ordered number items
  | [], _, _ => ⟨rfl, rfl, fun _ => rfl⟩
  | .mk content checked children :: r, h, hbreaks => by
    rw [areOutlineItems_cons, isOutlineItem_mk] at h
    rw [itemsBreaks_cons] at hbreaks
    obtain ⟨⟨hcontent, hchecked, hchildren⟩, hr⟩ := h
    obtain ⟨hline, hinner, hrest⟩ := hbreaks
    have hplain := isPlain_of_isWrapped hcontent hline
    obtain ⟨htrees, hsame, hlines⟩ := areTrees_of_areOutlines children hchildren hinner
    obtain ⟨hentries, hcounted, hmore⟩ := areTreeItems_of_areOutlineItems ordered r hr hrest
    refine ⟨areTreeItems_cons.mpr ⟨isTreeItem_mk.mpr ⟨isEntryText_of_isPlain hplain,
      isBoxed_of_isPlain hchecked hplain, htrees⟩, hentries⟩, ?_, fun number => ?_⟩
    · rw [recountItems, recountItem, hsame, hcounted]
    · rw [outlineItemsLines, outlineItemLines, lines_markerLine, lines_of_not_mem hline, hlines, hmore]
      rfl
termination_by items => sizeOf items

theorem areTrees_of_areOutlines :
    (bs : List Block) → areOutlines bs = true → childBreaks bs = 0 →
      areTrees bs = true ∧ recountAll bs = bs ∧ outlineChildLines bs = childLines bs
  | [], _, _ => ⟨rfl, rfl, rfl⟩
  | b :: r, h, hbreaks => by
    rw [areOutlines_cons] at h
    rw [childBreaks_cons] at hbreaks
    obtain ⟨ordered, start, items, hb, hne, hnumerals, hitems⟩ := exists_items_of_isOutline h.1
    obtain ⟨hstart, hsame⟩ := isStart_of_areNumerals (List.length_pos_iff.mpr hne) hnumerals
    obtain ⟨hentries, hcounted, hlines⟩ := areTreeItems_of_areOutlineItems ordered items hitems
      (by simpa [hb, breaks] using hbreaks.1)
    obtain ⟨htrees, hrest, hmore⟩ := areTrees_of_areOutlines r h.2.2 hbreaks.2
    subst hb
    refine ⟨areTrees_cons.mpr ⟨?_, h.2.1, htrees⟩, ?_, ?_⟩
    · simp [isTree, hstart, hne, hentries]
    · rw [recountAll, recount, hsame, hcounted, hrest]
    · rw [outlineChildLines, outlineLines, childLines, blockLines, hlines, hmore]
termination_by bs => sizeOf bs

end

/-- An outline without breaks is written as any other list, and can be read back as it is. -/
theorem isTree_of_isOutline (h : isOutline b = true) (hbreaks : breaks b = 0) :
    isTree b = true ∧ recount b = b ∧ outlineLines b = blockLines b := by
  obtain ⟨htrees, hsame, hlines⟩ := areTrees_of_areOutlines [b] (areOutlines_cons.mpr ⟨h, rfl, rfl⟩)
    (childBreaks_cons.mpr ⟨hbreaks, rfl⟩)
  refine ⟨(areTrees_cons.mp htrees).1, (List.cons.inj hsame).1, ?_⟩
  simpa [outlineChildLines, childLines] using hlines

end Markdown.Canonical
