import Markdown.FromHtml.Document
import Markdown.Proofs.CanonicalBlocks
import Markdown.Proofs.CanonicalNodes

/-!
# Markdown from the trees of canonical documents

The conversion from HTML turns the element of a block with a canonical form into the lines of the
block, with a blank line behind them (`Canonical.blockNode_node`).
-/

namespace Markdown.Canonical

open Html (Node Tag)
open FromHtml
open Text

variable {t : Text} {code : Text → Text → List Node} {e : Rendering}

/-! ### Texts -/

theorem orElse_none (tag : Tag) (children : List Node) (own : Report Text) :
    orElse none tag children own = own := rfl

theorem dropZeroWidth_of_not_mem (h : zeroWidthSpace ∉ t) : dropZeroWidth t = t := by
  rw [dropZeroWidth, List.filter_eq_self]
  exact fun c hc => decide_eq_true (ne_of_mem_of_not_mem hc h)

theorem dropZeroWidth_eq_self (h : ∀ c ∈ t, c = '\n' ∨ isPrintable c = true) :
    dropZeroWidth t = t := by
  refine dropZeroWidth_of_not_mem fun hmem => ?_
  rcases h _ hmem with hnewline | hprintable
  · exact absurd hnewline (by decide)
  · exact absurd hprintable (by decide)

theorem dropZeroWidth_of_isPlain (h : isPlain t = true) : dropZeroWidth t = t :=
  dropZeroWidth_eq_self fun _ hc => .inr (isPrintable_of_mem h hc)

theorem IsCellText.inlineNodes (h : IsCellText t) : inlineNodes none [plain t] = pure t := by
  have hwidth := dropZeroWidth_eq_self fun c hc => .inr (h.isPrintable c hc)
  simp [FromHtml.inlineNodes, plain, inlineNode, textMarkdown, shows, hwidth]

theorem inlineNodes_plain (h : isPlain t = true) : inlineNodes none [plain t] = pure t :=
  (isCellText_of_isPlain h).inlineNodes

theorem innerText_plain {tag : Tag} (h : tag.textKind? = none) :
    tag.innerText [plain t] = t := by
  simp [Tag.innerText, Node.textsWhere, plain, Node.textWhere, Tag.shows, h]

/-! ### Headings, paragraphs and rules -/

/-- A heading with visible text becomes this text behind hashes, trimmed. -/
theorem blockNode_hashes (s : Surroundings) {level : Int} (hlevel : 1 ≤ level ∧ level ≤ 6)
    (hne : trim t ≠ []) :
    blockNode none s (.element ⟨'h' :: ofInt level, []⟩ [plain t]) =
      pure (List.replicate level.toNat '#' ++ ' ' :: trim t ++ ['\n', '\n']) := by
  have hlevel : blockRole ⟨'h' :: ofInt level, []⟩ = .heading ∧
      headingLevel? ⟨'h' :: ofInt level, []⟩ = some level.toNat ∧
      (Tag.mk ('h' :: ofInt level) []).textKind? = none := by
    obtain rfl | rfl | rfl | rfl | rfl | rfl : level = 1 ∨ level = 2 ∨ level = 3 ∨ level = 4 ∨
        level = 5 ∨ level = 6 := by omega
    all_goals exact ⟨by rfl, by rfl, by rfl⟩
  obtain ⟨hrole, hsome, hkind⟩ := hlevel
  rw [blockNode, orElse_none, hrole]
  simp only [heading, hsome, innerText_plain hkind, List.isEmpty_eq_false_iff.mpr hne,
    Bool.false_eq_true, if_false]

theorem blockNode_heading (s : Surroundings) {level : Int} (hlevel : 1 ≤ level ∧ level ≤ 6)
    (h : isPlain t = true) :
    blockNode none s (.element ⟨'h' :: ofInt level, []⟩ [plain t]) =
      pure (closeLines [List.replicate level.toNat '#' ++ ' ' :: t]) := by
  have htrim := trim_of_isPlain h
  have hne : trim t ≠ [] := by
    rw [htrim]
    exact ne_nil_of_isPlain h
  rw [blockNode_hashes s hlevel hne, htrim, closeLines, unlines, List.intercalate_singleton]

theorem blockNode_paragraph (s : Surroundings) (h : isPlain t = true) :
    blockNode none s (bare "p" [plain t]) = pure (closeLines [t]) := by
  have hrole : blockRole ⟨"p".toList, []⟩ = .paragraph := by rfl
  rw [bare, blockNode, orElse_none, hrole]
  simp [inlineNodes_plain h, closeLines, unlines, List.intercalate]

theorem blockNode_rule (s : Surroundings) :
    blockNode none s (bare "hr" []) = pure (closeLines ["---".toList]) := by
  have hrole : blockRole ⟨"hr".toList, []⟩ = .rule := by rfl
  rw [bare, blockNode, orElse_none, hrole]
  rfl

/-! ### Code -/

theorem languageIn?_language {language : Text} (hne : language.isEmpty = false)
    (h : ∀ c ∈ language, isWord c = true) :
    languageIn? ("language-".toList ++ language) = some language := by
  have hafter : Text.after? "language-".toList ("language-".toList ++ language) = some language :=
    after?_eq_some_iff.mpr rfl
  have hword : language.takeWhile isWord = language := List.takeWhile_eq_self_iff.mpr h
  generalize hname : "language-".toList ++ language = name at *
  cases name with
  | nil => simp at hname
  | cons c r =>
    rw [languageIn?, hafter]
    simp only [hword, hne, Bool.false_eq_true, if_false]

/-- A class without blanks is the only one. -/
theorem classes_of_visible (name : Text) {v : Text} (attributes : List (Text × Text))
    (hne : v.isEmpty = false) (h : ∀ c ∈ v, isBlank c = false) :
    (Tag.mk name (("class".toList, v) :: attributes)).classes = [v] := by
  have hvalue : (Tag.mk name (("class".toList, v) :: attributes)).value "class" = v := by
    simp [Tag.value, Tag.value?]
  have hmap : v.map (fun c => if isBlank c then ' ' else c) = v := by
    conv_rhs => rw [← List.map_id v]
    exact List.map_congr_left fun c hc => by simp [h c hc]
  have hspace : ' ' ∉ v := fun hmem => absurd (h _ hmem) (by decide)
  have hsplit : v.splitOn ' ' = [v] := by
    have hword : ∀ w ∈ [v], ' ' ∉ w := List.forall_mem_singleton.mpr hspace
    simpa using List.splitOn_intercalate ' ' hword (by simp)
  rw [Tag.classes, hvalue, hmap, hsplit]
  simp [hne]

/-- The language of code is found again. -/
theorem languageIn?_classes {language : Text} (detected : Bool)
    (h : ∀ c ∈ language, isWord c = true) :
    (languageIn? ([' '].intercalate (codeTag language detected).classes)).getD [] = language := by
  unfold codeTag
  cases hempty : language.isEmpty with
  | true =>
    rw [List.isEmpty_iff.mp hempty]
    cases detected <;> rfl
  | false =>
    have hvisible : ∀ c ∈ "language-".toList ++ language, isBlank c = false := by
      intro c hc
      rcases List.mem_append.mp hc with hc | hc
      · have hname : "language-".toList.all (!isBlank ·) = true := by decide
        simpa using List.all_eq_true.mp hname c hc
      · exact isBlank_of_isWord (h c hc)
    rw [if_neg (by simp), List.singleton_append, classes_of_visible _ _ (by simp) hvisible,
      List.intercalate_singleton, languageIn?_language hempty h]
    rfl

/-- The code of a block comes back in a fence, with its language. -/
theorem blockNode_codeNode (hcode : ShowsCode e code) (s : Surroundings) {language content : Text}
    (detected : Bool) (hlanguage : ∀ c ∈ language, isWord c = true)
    (hwidth : zeroWidthSpace ∉ content) :
    blockNode none s (codeNode language detected (code language content)) =
      pure (closeLines ((Canonical.fence ++ language) ::
        (Text.lines content ++ [Canonical.fence]))) := by
  have hrole : blockRole ⟨"pre".toList, []⟩ = .preformatted := by rfl
  have hfind : Node.findAmong? (·.isNamed "code")
      [Node.element (codeTag language detected) (code language content)] =
        some (codeTag language detected, code language content) := by rfl
  have htext : (codeTag language detected).innerText (code language content) = content :=
    hcode.textsWhere_eq language content _ (by rfl)
  have hne := lines_ne_nil content
  rw [codeNode, bare, blockNode, orElse_none, hrole]
  simp only [preformatted, hfind, htext, dropZeroWidth_of_not_mem hwidth,
    languageIn?_classes detected hlanguage]
  rw [closeLines, unlines_cons _ (by simp), unlines_append hne (by simp), unlines_lines]
  simp [FromHtml.fence, Canonical.fence, unlines, List.intercalate]

theorem blockNode_code (hcode : ShowsCode e code) (s : Surroundings) {language content : Text}
    (detected : Bool) (hlanguage : isLanguage language = true)
    (hcontent : (Text.lines content).all isCodeLine = true) :
    blockNode none s (codeNode language detected (code language content)) =
      pure (closeLines ((Canonical.fence ++ language) ::
        (Text.lines content ++ [Canonical.fence]))) := by
  apply blockNode_codeNode hcode s detected
  · exact fun c hc => isWord_of_isAsciiLetter (isAsciiLetter_of_isLanguage hlanguage hc)
  · intro hmem
    rw [← unlines_lines content] at hmem
    have hclass := forall_mem_intercalate (P := fun c => c = '\n' ∨ isPrintable c = true) (by simp)
      (fun l hl c hc => .inr ?_) _ hmem
    · revert hclass
      decide
    · have hline := List.all_eq_true.mp hcontent l hl
      simp only [isCodeLine, Bool.and_eq_true] at hline
      exact isPrintable_of_all hline.1.1 hc

/-! ### Tables -/

theorem elements_cons {p : Tag → Bool} {tag : Tag} (h : p tag = true) (children r : List Node) :
    Node.elements p (.element tag children :: r) = (tag, children) :: Node.elements p r := by
  simp [Node.elements, h]

theorem elements_append (p : Tag → Bool) (ns ms : List Node) :
    Node.elements p (ns ++ ms) = Node.elements p ns ++ Node.elements p ms :=
  List.filterMap_append

theorem IsCellText.cellText_eq (h : IsCellText t) : cellText t = t := by
  have hnewline : '\n' ∉ t := h.not_mem (by decide) (by decide)
  rw [cellText, h.trim_eq]
  conv_rhs => rw [← List.map_id t]
  exact List.map_congr_left fun c hc => if_neg (ne_of_mem_of_not_mem hc hnewline)

theorem isCell_cellTag {name : String} (hname : name = "th" ∨ name = "td") (a : Option Alignment) :
    FromHtml.isCell (cellTag name a) = true := by
  rcases hname with rfl | rfl <;> rfl

theorem rowCells_cellNodes {name : String} (hname : name = "th" ∨ name = "td")
    (alignments : List (Option Alignment)) {cells : List Text} (h : ∀ t ∈ cells, IsCellText t) :
    rowCells none (cellNodes name alignments cells) = pure cells := by
  induction cells generalizing alignments with
  | nil => rfl
  | cons cell cells ih =>
    obtain ⟨hcell, hcells⟩ := List.forall_mem_cons.mp h
    have hrest := ih alignments.tail hcells
    rw [rowCells] at hrest ⊢
    rw [cellNodes, elements_cons (isCell_cellTag hname _), List.mapM_cons, hrest,
      hcell.inlineNodes, map_pure, hcell.cellText_eq]
    rfl

theorem alignmentOf_cellTag (a : Option Alignment) : alignmentOf (cellTag "th" a) = pure a := by
  rcases a with _ | _ | _ | _ <;> rfl

theorem alignments_cellNodes {alignments : List (Option Alignment)} {cells : List Text}
    (h : alignments.length = cells.length) :
    (Node.elements FromHtml.isCell (cellNodes "th" alignments cells)).mapM
      (fun cell => alignmentOf cell.1) = pure alignments := by
  induction cells generalizing alignments with
  | nil =>
    rw [List.length_eq_zero_iff.mp h]
    rfl
  | cons cell cells ih =>
    obtain ⟨a, r, rfl⟩ := List.exists_cons_of_ne_nil (l := alignments) (by rintro rfl; cases h)
    rw [cellNodes, elements_cons (isCell_cellTag (.inl rfl) _), List.mapM_cons,
      List.tail_cons, ih (by simpa using h)]
    simp [alignmentOf_cellTag]

theorem selectAmong_cellNodes (alignments : List (Option Alignment)) (cells : List Text) :
    Node.selectAmong FromHtml.isRow (·.isOneOf ["thead", "table"])
      (cellNodes "td" alignments cells) = [] := by
  induction cells generalizing alignments with
  | nil => rfl
  | cons cell cells ih =>
    rw [cellNodes, Node.selectAmong, ih]
    rfl

theorem selectAmong_rows (alignments : List (Option Alignment)) (rows : List (List Text)) :
    (Node.selectAmong FromHtml.isRow (·.isOneOf ["thead", "table"])
      (rows.map fun row => bare "tr" (cellNodes "td" alignments row))).map (·.2) =
      rows.map (cellNodes "td" alignments) := by
  induction rows with
  | nil => rfl
  | cons row rows ih =>
    have hrow : Node.select FromHtml.isRow (·.isOneOf ["thead", "table"])
        (bare "tr" (cellNodes "td" alignments row)) =
          [(⟨"tr".toList, []⟩, cellNodes "td" alignments row)] := by
      rw [bare, Node.select, selectAmong_cellNodes]
      rfl
    rw [List.map_cons, Node.selectAmong, hrow, List.map_append, ih]
    rfl

theorem bodyRows_tableNode (head : List Node) (alignments : List (Option Alignment))
    (rows : List (List Text)) :
    bodyRows (bare "thead" head :: if rows.isEmpty then []
      else [bare "tbody" (rows.map fun row => bare "tr" (cellNodes "td" alignments row))]) =
      rows.map (cellNodes "td" alignments) := by
  have hhead :
      Node.select FromHtml.isRow (·.isOneOf ["thead", "table"]) (bare "thead" head) = [] := by
    rfl
  rw [bodyRows, Node.selectAmong, hhead, List.nil_append]
  cases rows with
  | nil => rfl
  | cons row rows =>
    have hrows := selectAmong_rows alignments (row :: rows)
    generalize ((row :: rows).map fun row => bare "tr" (cellNodes "td" alignments row)) = ns at *
    have hbody : Node.select FromHtml.isRow (·.isOneOf ["thead", "table"]) (bare "tbody" ns) =
        Node.selectAmong FromHtml.isRow (·.isOneOf ["thead", "table"]) ns := by
      rfl
    rw [List.isEmpty_cons, if_neg (by simp), Node.selectAmong, hbody, Node.selectAmong,
      List.append_nil, hrows]

theorem blockNode_table {s : Surroundings} (hs : s.underHead = false) {headers : List Text}
    {alignments : List (Option Alignment)} {rows : List (List Text)}
    (hne : headers ≠ []) (hheaders : ∀ t ∈ headers, IsCellText t)
    (halignments : alignments.length = headers.length)
    (hrows : ∀ row ∈ rows, row ≠ [] ∧ ∀ t ∈ row, IsCellText t) :
    blockNode none s (tableNode headers alignments rows) =
      pure (closeLines (pipeRow headers :: pipeRow (alignments.map separator) ::
        rows.map pipeRow)) := by
  have hrole : blockRole ⟨"table".toList, []⟩ = .table := by rfl
  have hheader : ∀ body, headerCells none
      (bare "thead" [bare "tr" (cellNodes "th" alignments headers)] :: body) =
        pure ([headers], alignments.map separator) := by
    intro body
    have hrow : headerRow? (bare "thead" [bare "tr" (cellNodes "th" alignments headers)] :: body) =
        some (cellNodes "th" alignments headers) := by
      rw [headerRow?, bare, elements_cons (by rfl)]
      rfl
    rw [headerCells, hrow]
    simp only [rowCells_cellNodes (.inl rfl) alignments hheaders,
      alignments_cellNodes halignments, pure_bind]
  have hbody : (rows.map (cellNodes "td" alignments)).mapM (rowCells none) = pure rows := by
    have hrow : ∀ row ∈ rows, (rowCells none ∘ cellNodes "td" alignments) row = pure (id row) :=
      fun row hrow => rowCells_cellNodes (.inr rfl) alignments (hrows row hrow).2
    rw [List.mapM_map, Report.mapM_eq_pure hrow, List.map_id]
  have hfilter : rows.filter (!List.isEmpty ·) = rows := by
    rw [List.filter_eq_self]
    intro row hrow
    rw [List.isEmpty_eq_false_iff.mpr (hrows row hrow).1]
    rfl
  have hseparators : (alignments.map separator).isEmpty = false := by
    cases alignments with
    | nil => exact absurd (List.length_eq_zero_iff.mp halignments.symm) hne
    | cons a r => rfl
  rw [tableNode, bare, blockNode, orElse_none, hrole]
  simp only [table, hheader, hs, bodyRows_tableNode, Bool.false_eq_true, if_false, hbody, pure_bind,
    hfilter, List.singleton_append, hseparators, closeLines]

/-! ### Definition lists -/

/-- The line of a term or of a definition. -/
def entryLine (e : Tag × List Node) : Report Text := do
  let t ← inlineNodes none e.2
  pure (if e.1.isNamed "dt" then trim t else ':' :: ' ' :: trim t)

theorem mapM_meanings {ms : List Text} (h : ms.all isPlain = true) :
    (Node.elements (·.isOneOf ["dt", "dd"]) (ms.map fun m => bare "dd" [plain m])).mapM entryLine =
      pure (ms.map fun m => ':' :: ' ' :: m) := by
  induction ms with
  | nil => rfl
  | cons m ms ih =>
    rw [List.all_cons, Bool.and_eq_true] at h
    have hline : entryLine (⟨"dd".toList, []⟩, [plain m]) = pure (':' :: ' ' :: m) := by
      rw [entryLine, inlineNodes_plain h.1, pure_bind, trim_of_isPlain h.1]
      rfl
    rw [List.map_cons, bare, elements_cons (by rfl), List.mapM_cons, hline, ih h.2]
    rfl

theorem mapM_definitions {items : List Definition} (h : items.all isDefinition = true) :
    (Node.elements (·.isOneOf ["dt", "dd"]) (items.flatMap definitionNodes)).mapM entryLine =
      pure (items.flatMap definitionLines) := by
  induction items with
  | nil => rfl
  | cons d items ih =>
    rw [List.all_cons, Bool.and_eq_true] at h
    obtain ⟨hterm, -, hmeanings⟩ := isDefinition_iff.mp h.1
    have hline : entryLine (⟨"dt".toList, []⟩, [plain d.term]) = pure d.term := by
      rw [entryLine, inlineNodes_plain hterm, pure_bind, trim_of_isPlain hterm]
      rfl
    have hsplit : Node.elements (·.isOneOf ["dt", "dd"]) ((d :: items).flatMap definitionNodes) =
        (⟨"dt".toList, []⟩, [plain d.term]) ::
          (Node.elements (·.isOneOf ["dt", "dd"]) (d.meanings.map fun m => bare "dd" [plain m]) ++
            Node.elements (·.isOneOf ["dt", "dd"]) (items.flatMap definitionNodes)) := by
      rw [List.flatMap_cons, definitionNodes, List.cons_append, bare, elements_cons (by rfl),
        Node.elements, List.filterMap_append]
      rfl
    rw [hsplit, List.mapM_cons, hline, List.mapM_append, mapM_meanings hmeanings, ih h.2]
    rfl

theorem blockNode_definitions (s : Surroundings) {items : List Definition} (hne : items ≠ [])
    (h : items.all isDefinition = true) :
    blockNode none s (bare "dl" (items.flatMap definitionNodes)) =
      pure (closeLines (items.flatMap definitionLines)) := by
  have hrole : blockRole ⟨"dl".toList, []⟩ = .definitions := by rfl
  have hlines : (items.flatMap definitionLines).isEmpty = false := by
    obtain ⟨d, r, rfl⟩ := List.exists_cons_of_ne_nil hne
    rfl
  have hentries := mapM_definitions h
  rw [bare, blockNode, orElse_none, hrole]
  show definitions none _ = _
  rw [definitions]
  show (do
    let lines ←
      (Node.elements (·.isOneOf ["dt", "dd"]) (items.flatMap definitionNodes)).mapM entryLine
    pure (paragraphOf lines)) = _
  rw [hentries, pure_bind, paragraphOf, hlines]
  rfl

/-! ### Lists -/

theorem Framed.mem_closeLines {ls : List Text} (h : Framed ls) :
    ∀ c ∈ closeLines ls, c = '\n' ∨ isPrintable c = true := by
  intro c hc
  rcases List.mem_append.mp hc with hc | hc
  · exact h.mem_unlines c hc
  · left
    simpa using hc

theorem not_mem_closeLines {c : Char} {ls : List Text} (hc : c ≠ '\n') (h : ∀ l ∈ ls, c ∉ l) :
    c ∉ closeLines ls := by
  intro hmem
  rcases List.mem_append.mp hmem with hmem | hmem
  · exact forall_mem_intercalate (P := (· ≠ c)) (List.forall_mem_singleton.mpr hc.symm)
      (fun l hl d hd => ne_of_mem_of_not_mem hd (h l hl)) c hmem rfl
  · exact hc (by simpa using hmem)

theorem closeLines_eq {ls : List Text} (hne : ls ≠ []) :
    closeLines ls = unlines (ls ++ [[], []]) := by
  rw [unlines_append hne (by simp)]
  rfl

theorem closeLines_flatMap_lines (ts : List Text) :
    closeLines (ts.flatMap Text.lines) = closeLines ts := by
  rw [closeLines, unlines_flatMap_lines, closeLines]

/-- Lines that are neither empty nor broken. -/
def AreSolid (ls : List Text) : Prop :=
  ∀ l ∈ ls, l ≠ [] ∧ '\n' ∉ l

theorem Framed.areSolid {ls : List Text} (h : Framed ls) (hne : ∀ l ∈ ls, l ≠ []) : AreSolid ls :=
  fun l hl => ⟨hne l hl, not_mem_of_printable (by decide) (h.printable l hl)⟩

/-- A list inside an entry is found again behind two spaces. -/
theorem indentLines_closeLines {ls : List Text} (hne : ls ≠ []) (h : AreSolid ls) :
    indentLines (closeLines ls) = ls.map inset := by
  have hlines : Text.lines (closeLines ls) = ls ++ [[], []] := by
    rw [closeLines_eq hne]
    apply lines_unlines (by simp)
    intro l hl
    rcases List.mem_append.mp hl with hl | hl
    · exact (h l hl).2
    · simp only [List.mem_cons, List.not_mem_nil, or_false, or_self] at hl
      rw [hl]
      simp
  have hfilter : ls.filter (!List.isEmpty ·) = ls := by
    rw [List.filter_eq_self]
    intro l hl
    simpa using (h l hl).1
  rw [indentLines, hlines, List.filter_append, hfilter]
  simp [inset]

theorem ne_nil_of_mem_itemsLines {ordered : Bool} {number : Nat} {items : List Item} {l : Text}
    (hl : l ∈ itemsLines ordered number items) : l ≠ [] := by
  induction items generalizing number with
  | nil => simp [itemsLines] at hl
  | cons i items ih =>
    obtain ⟨content, checked, children⟩ := i
    rw [itemsLines, itemLines] at hl
    rcases List.mem_append.mp hl with hl | hl
    · rcases List.mem_cons.mp hl with rfl | hl
      · obtain ⟨c, r, hline, -⟩ := markerLine_eq_cons ordered number checked content
        simp [hline]
      · obtain ⟨k, -, rfl⟩ := List.mem_map.mp hl
        simp [inset]
    · exact ih hl

theorem isList_listTag (ordered : Bool) (start : Int) (task : Bool) :
    FromHtml.isList (listTag ordered start task) = true := by
  cases ordered <;> rfl

theorem isNamed_listTag (ordered : Bool) (start : Int) (task : Bool) :
    (listTag ordered start task).isNamed "ol" = ordered := by
  cases ordered <;> rfl

/-- Whether all numbers below a bound have a numeral that may be read. -/
def AreShort (ordered : Bool) (bound : Nat) : Prop :=
  ordered = true → ∀ n < bound, (ofNat n).length ≤ maxListDigits

theorem areShort_of_areNumerals {ordered : Bool} {start : Int} {count : Nat}
    (h : areNumerals ordered start count = true) : AreShort ordered (start.toNat + count) := by
  rintro rfl n hn
  exact length_ofNat_le_of_areNumerals h hn

theorem firstNumber_listTag {ordered : Bool} {start : Int} {count : Nat} (task : Bool)
    (hcount : 0 < count) (h : areNumerals ordered start count = true) :
    firstNumber (listTag ordered start task) = pure (if ordered then start.toNat else 0) := by
  cases ordered with
  | false => rfl
  | true =>
    obtain ⟨n, rfl⟩ := Int.eq_ofNat_of_zero_le (nonneg_of_areNumerals h)
    have hshort : ¬ maxListDigits < (ofNat n).length :=
      Nat.not_lt.mpr (length_ofNat_le_of_areNumerals h (Nat.lt_add_of_pos_right hcount))
    have hdigits : (((listTag true n task).value? "start").getD ['1']) = ofNat n := by
      rw [listTag, if_pos rfl]
      by_cases hone : (n : Int) = 1
      · obtain rfl : n = 1 := by omega
        rfl
      · rw [if_neg hone]
        simp [Tag.value?, ofInt]
    have htrim : trim (ofNat n) = ofNat n :=
      trim_word fun c hc => isBlank_of_isAsciiDigit (isAsciiDigit_of_mem_ofNat hc)
    have hall : (ofNat n).all isDigit = true :=
      List.all_eq_true.mpr fun c hc => isDigit_of_isAsciiDigit (isAsciiDigit_of_mem_ofNat hc)
    have hne : (ofNat n).isEmpty = false := by
      obtain ⟨d, r, hd, -⟩ := exists_cons_ofNat n
      rw [hd]
      rfl
    rw [firstNumber, isNamed_listTag, if_pos rfl, startNumber]
    simp only [hdigits, htrim, hall, hne, hshort, digitsValue_ofNat]
    rfl

theorem itemMark_eq {ordered : Bool} {number bound : Nat} (h : AreShort ordered bound)
    (hnumber : number < bound) : itemMark ordered number = pure (mark ordered number) := by
  cases ordered with
  | false => rfl
  | true =>
    have hshort : ¬ maxListDigits < (ofNat number).length := Nat.not_lt.mpr (h rfl number hnumber)
    simp [itemMark, hshort, mark]

theorem exists_listTag (code : Text → Text → List Node) {b : Block} (h : isList b = true) :
    ∃ ordered start task ns, node code b = .element (listTag ordered start task) ns := by
  cases b with
  | list ordered start items =>
    exact ⟨ordered, start, isTaskList items, itemNodes code items, by rw [node]⟩
  | _ => cases h

/-- The lists in an entry do not belong to its text. -/
theorem filter_nodes (code : Text → Text → List Node) {bs : List Block} (h : bs.all isList = true) :
    (nodes code bs).filter belongsToText = [] ∧
      Node.elements isCheckbox (nodes code bs) = [] := by
  induction bs with
  | nil => exact ⟨rfl, rfl⟩
  | cons b bs ih =>
    rw [List.all_cons, Bool.and_eq_true] at h
    obtain ⟨ordered, start, task, ns, hnode⟩ := exists_listTag code h.1
    have hlist := isList_listTag ordered start task
    have hbox : isCheckbox (listTag ordered start task) = false := by cases ordered <;> rfl
    obtain ⟨hfilter, helements⟩ := ih h.2
    rw [nodes, hnode]
    constructor
    · rw [List.filter_cons_of_neg (by simp [belongsToText, hlist]), hfilter]
    · simpa [Node.elements, hbox] using helements

theorem filter_lineNodes (ls : List Text) :
    (lineNodes ls).filter belongsToText = lineNodes ls ∧
      Node.elements isCheckbox (lineNodes ls) = [] := by
  induction ls with
  | nil => exact ⟨rfl, rfl⟩
  | cons l r ih =>
    cases r with
    | nil => exact ⟨rfl, rfl⟩
    | cons k r =>
      obtain ⟨hfilter, helements⟩ := ih
      have hbreak : belongsToText (bare "br" []) = true := rfl
      constructor
      · rw [lineNodes, List.filter_cons_of_pos (by rfl), List.filter_cons_of_pos hbreak, hfilter]
      · rw [lineNodes, Node.elements, List.filterMap_cons_none (by rfl),
          List.filterMap_cons_none (by rfl)]
        exact helements

/-- The breaks between lines are found again. -/
theorem inlineNodes_lineNodes {ls : List Text} (h : ∀ l ∈ ls, dropZeroWidth l = l) :
    inlineNodes none (lineNodes ls) = pure (lineBreak.intercalate ls) := by
  have htext : ∀ l ∈ ls, inlineNode none (plain l) = pure l := by
    intro l hl
    rw [plain, inlineNode, textMarkdown, h l hl]
    rfl
  have hbreak : inlineNode none (bare "br" []) = pure lineBreak := rfl
  clear h
  induction ls with
  | nil => rfl
  | cons l r ih =>
    obtain ⟨hl, hr⟩ := List.forall_mem_cons.mp htext
    cases r with
    | nil => simp [lineNodes, inlineNodes, hl]
    | cons k r => simp [lineNodes, inlineNodes, hl, hbreak, ih hr, List.intercalate_cons_cons]

theorem trim_lineBreaks {l : Text} {ls : List Text} (hl : isPlain l = true)
    (hls : ∀ k ∈ ls, isPlain k = true) :
    trim (lineBreak.intercalate (l :: ls)) = lineBreak.intercalate (l :: ls) := by
  have hframed : Framed (hardLines (l :: ls)) :=
    framed_hardLines (framed_behind [] hl (by simp) rfl) fun k hk =>
      framed_behind [] (hls k hk) (by simp) rfl
  have hself := hframed.trim_unlines (s := []) rfl
  rwa [List.append_nil, unlines_hardLines] at hself

/-- The box of an entry is found among its nodes. -/
theorem itemBox_itemText (content : Text) (checked : Option Bool) {bs : List Block}
    (h : bs.all isList = true) :
    itemBox (itemText content checked ++ nodes code bs) = box checked := by
  obtain ⟨-, hboxes⟩ := filter_nodes code h
  cases checked with
  | none =>
    rw [itemBox, itemText, elements_append, hboxes, (filter_lineNodes _).2]
    rfl
  | some ticked =>
    have hfirst : isCheckbox (boxTag ticked) = true := by cases ticked <;> rfl
    show itemBox
      (.element (boxTag ticked) [] :: (lineNodes (Text.lines (' ' :: content)) ++ nodes code bs)) = _
    rw [itemBox, elements_cons hfirst, elements_append, (filter_lineNodes _).2, hboxes]
    cases ticked <;> rfl

/-- The text of an entry is found again, up to the space behind a box. -/
theorem inlineNodes_itemText (code : Text → Text → List Node) {content : Text}
    (hcontent : isWrapped content = true) (checked : Option Bool) {bs : List Block}
    (h : bs.all isList = true) :
    ∃ t, inlineNodes none ((itemText content checked ++ nodes code bs).filter belongsToText) = pure t ∧
      trim t = lineBreak.intercalate (Text.lines content) := by
  obtain ⟨hlists, -⟩ := filter_nodes code h
  obtain ⟨l, ls, hlines, hl, hls⟩ := exists_lines_of_isWrapped hcontent
  have hwidth : ∀ k ∈ ls, dropZeroWidth k = k := fun k hk => dropZeroWidth_of_isPlain (hls k hk)
  cases checked with
  | none =>
    refine ⟨lineBreak.intercalate (l :: ls), ?_, by rw [trim_lineBreaks hl hls, hlines]⟩
    rw [itemText, hlines, List.filter_append, hlists, (filter_lineNodes _).1, List.append_nil,
      inlineNodes_lineNodes (List.forall_mem_cons.mpr ⟨dropZeroWidth_of_isPlain hl, hwidth⟩)]
  | some ticked =>
    have hbox : belongsToText (.element (boxTag ticked) []) = false := by cases ticked <;> rfl
    have hfirst : dropZeroWidth (' ' :: l) = ' ' :: l :=
      dropZeroWidth_eq_self fun c hc => .inr (by
        rcases List.mem_cons.mp hc with rfl | hc
        · rfl
        · exact isPrintable_of_mem hl hc)
    refine ⟨' ' :: lineBreak.intercalate (l :: ls), ?_, ?_⟩
    · have hjoin : lineBreak.intercalate ((' ' :: l) :: ls) = ' ' :: lineBreak.intercalate (l :: ls) := by
        cases ls with
        | nil => rw [List.intercalate_singleton, List.intercalate_singleton]
        | cons k r => simp [List.intercalate_cons_cons]
      rw [itemText, lines_space_cons hlines, List.cons_append, List.filter_cons_of_neg (by simp [hbox]),
        List.filter_append, hlists, (filter_lineNodes _).1, List.append_nil,
        inlineNodes_lineNodes (List.forall_mem_cons.mpr ⟨hfirst, hwidth⟩), hjoin]
    · show trim (lineBreak.intercalate (l :: ls)) = _
      rw [trim_lineBreaks hl hls, hlines]

theorem itemLine_eq {content : Text} (hcontent : isWrapped content = true) (checked : Option Bool)
    (before : Text) {bs : List Block} (h : bs.all isList = true) :
    itemLine none before (itemText content checked ++ nodes code bs) =
      pure (before ++ (box checked ++ lineBreak.intercalate (Text.lines content))) := by
  obtain ⟨t, htext, htrim⟩ := inlineNodes_itemText code hcontent checked h
  rw [itemLine, htext, pure_bind, itemBox_itemText content checked h, htrim, List.append_assoc]

theorem nestedLines_lineNodes (ls : List Text) (ns : List Node) :
    nestedLines none (lineNodes ls ++ ns) = nestedLines none ns := by
  have hnode : ∀ n ms, innerLines none n = pure [] → nestedLines none (n :: ms) = nestedLines none ms := by
    intro n ms hn
    simp [nestedLines, hn]
  induction ls with
  | nil => rfl
  | cons l r ih =>
    have htext : innerLines none (plain l) = pure [] := by rw [plain, innerLines]
    cases r with
    | nil => exact hnode _ _ htext
    | cons k r =>
      have hbreak : innerLines none (bare "br" []) = pure [] := by
        rw [bare, innerLines]
        rfl
      rw [lineNodes, List.cons_append, List.cons_append, hnode _ _ htext, hnode _ _ hbreak, ih]

theorem nestedLines_itemText (content : Text) (checked : Option Bool) (ns : List Node) :
    nestedLines none (itemText content checked ++ ns) = nestedLines none ns := by
  cases checked with
  | none => exact nestedLines_lineNodes (Text.lines content) ns
  | some ticked =>
    have hlist : FromHtml.isList (boxTag ticked) = false := by cases ticked <;> rfl
    show nestedLines none
      (.element (boxTag ticked) [] :: (lineNodes (Text.lines (' ' :: content)) ++ ns)) = _
    rw [nestedLines, innerLines, hlist, nestedLines_lineNodes]
    simp

/-- The lines of outlines are neither empty nor broken. -/
theorem areSolid_outlineItemsLines {ordered : Bool} (number : Nat) {items : List Item}
    (h : areOutlineItems ordered items = true) :
    AreSolid (outlineItemsLines ordered number items) := by
  have hspace : ∀ l : Text, l ≠ [] ∧ '\n' ∉ l → l ++ [' ', ' '] ≠ [] ∧ '\n' ∉ l ++ [' ', ' '] := by
    rintro l ⟨hne, hclean⟩
    refine ⟨List.append_ne_nil_of_left_ne_nil hne _, fun hmem => ?_⟩
    rcases List.mem_append.mp hmem with hmem | hmem
    · exact hclean hmem
    · exact absurd hmem (by decide)
  have hinset : ∀ l : Text, l ≠ [] ∧ '\n' ∉ l → inset l ≠ [] ∧ '\n' ∉ inset l := by
    rintro l ⟨-, hclean⟩
    exact ⟨by simp [inset], by simpa [inset] using hclean⟩
  refine forall_mem_outlineItemsLines (P := fun l => l ≠ [] ∧ '\n' ∉ l)
    (fun ordered number checked l hl => ?_) (fun l hl => ?_) hspace hinset ordered number items h
  · have hframed := framed_markerLine ordered number checked hl
    obtain ⟨c, r, hline, -⟩ := markerLine_eq_cons ordered number checked l
    exact ⟨by simp [hline], not_mem_of_printable (by decide) (hframed.printable _ List.mem_cons_self)⟩
  · exact ⟨ne_nil_of_isPlain hl, not_mem_of_isPlain hl (by decide)⟩

theorem areSolid_outlineChildLines {bs : List Block} (h : areOutlines bs = true) :
    AreSolid (outlineChildLines bs) := by
  induction bs with
  | nil => simp [outlineChildLines, AreSolid]
  | cons b r ih =>
    rw [areOutlines_cons] at h
    obtain ⟨ordered, start, items, rfl, -, -, hitems⟩ := exists_items_of_isOutline h.1
    intro l hl
    rcases List.mem_append.mp hl with hl | hl
    · exact areSolid_outlineItemsLines start.toNat hitems l hl
    · exact ih h.2.2 l hl

theorem all_isList_of_areOutlines {bs : List Block} (h : areOutlines bs = true) :
    bs.all isList = true := by
  induction bs with
  | nil => rfl
  | cons b r ih =>
    rw [areOutlines_cons] at h
    obtain ⟨ordered, start, items, rfl, -⟩ := exists_items_of_isOutline h.1
    rw [List.all_cons, ih h.2.2]
    rfl

/-- The text of an entry, with its mark and its breaks. -/
theorem lines_item (ordered : Bool) (number : Nat) (checked : Option Bool) (content : Text) :
    Text.lines (mark ordered number ++ (box checked ++ lineBreak.intercalate (Text.lines content))) =
      hardLines (Text.lines (markerLine ordered number checked content)) := by
  have hspace : ∀ l, markerLine ordered number checked (l ++ [' ', ' ']) =
      markerLine ordered number checked l ++ [' ', ' '] := fun l => by simp [markerLine]
  have hclean : ∀ l ∈ hardLines (Text.lines content), '\n' ∉ l := by
    refine forall_mem_hardLines (fun l hl hmem => ?_) fun l hl => separator_notMem_of_mem_splitOn hl
    rcases List.mem_append.mp hmem with hmem | hmem
    · exact hl hmem
    · exact absurd hmem (by decide)
  show Text.lines (markerLine ordered number checked _) = _
  rw [lines_markerLine, lines_markerLine, ← unlines_hardLines,
    lines_unlines (hardLines_ne_nil (lines_ne_nil content)) hclean, hardLines_modifyHead hspace]

mutual

/-- The entries of outlines become their lines. The text of an entry is one piece, with its breaks. -/
theorem listLines_itemNodes (code : Text → Text → List Node) {ordered : Bool} {bound : Nat}
    (hshort : AreShort ordered bound) :
    (items : List Item) → areOutlineItems ordered items = true →
      ∀ number, number + items.length ≤ bound →
        ∀ n, (ordered = true → n = number) →
          ∃ ts, listLines none ordered n (itemNodes code items) = pure ts ∧
            ts.flatMap Text.lines = outlineItemsLines ordered number items
  | [], _ => fun _ _ _ _ => ⟨[], rfl, rfl⟩
  | .mk content checked children :: r, h => by
    rw [areOutlineItems_cons, isOutlineItem_mk] at h
    obtain ⟨⟨hcontent, -, hchildren⟩, hr⟩ := h
    intro number hbound n hn
    rw [List.length_cons] at hbound
    obtain ⟨ts, hrest, hmore⟩ := listLines_itemNodes code hshort r hr (number + 1) (by omega) (n + 1)
      (fun ho => by rw [hn ho])
    have hinner := nestedLines_nodes code children hchildren
    have hmark : itemMark ordered n = pure (mark ordered number) := by
      cases ordered with
      | false => rfl
      | true =>
        rw [hn rfl]
        exact itemMark_eq hshort (by omega)
    have hentry : entryLines none ordered n (itemNode code (.mk content checked children)) =
        pure ((mark ordered number ++ (box checked ++ lineBreak.intercalate (Text.lines content))) ::
          (outlineChildLines children).map inset) := by
      have hnamed : (itemTag checked).isNamed "li" = true := by rfl
      rw [itemNode, entryLines, hnamed, if_pos rfl, hmark, pure_bind,
        itemLine_eq hcontent checked _ (all_isList_of_areOutlines hchildren), pure_bind,
        nestedLines_itemText, hinner, pure_bind]
    have hisEntry : isEntry (itemNode code (.mk content checked children)) = true := by
      rw [itemNode]
      rfl
    have hclean : ∀ l ∈ (outlineChildLines children).map inset, '\n' ∉ l := by
      intro l hl
      obtain ⟨k, hk, rfl⟩ := List.mem_map.mp hl
      simpa [inset] using (areSolid_outlineChildLines hchildren k hk).2
    refine ⟨_, by rw [itemNodes, listLines, hentry, pure_bind, hisEntry, if_pos rfl, hrest, pure_bind],
      ?_⟩
    rw [List.flatMap_append, hmore, List.flatMap_cons, lines_item ordered number checked content,
      flatMap_lines_of_clean hclean, outlineItemsLines, outlineItemLines]
termination_by items => sizeOf items

theorem nestedLines_nodes (code : Text → Text → List Node) :
    (bs : List Block) → areOutlines bs = true →
      nestedLines none (nodes code bs) = pure ((outlineChildLines bs).map inset)
  | [], _ => rfl
  | b :: r, h => by
    rw [areOutlines_cons] at h
    obtain ⟨ordered, start, items, hb, hne, hnumerals, hitems⟩ := exists_items_of_isOutline h.1
    have hrest := nestedLines_nodes code r h.2.2
    obtain ⟨ts, hlist, hflat⟩ := listLines_itemNodes code (areShort_of_areNumerals hnumerals) items
      hitems start.toNat le_rfl (if ordered then start.toNat else 0) fun ho => if_pos ho
    have hlines : indentLines (closeLines ts) = (outlineItemsLines ordered start.toNat items).map inset := by
      rw [← closeLines_flatMap_lines, hflat]
      exact indentLines_closeLines (framed_outlineItemsLines ordered start.toNat items hne hitems).ne_nil
        (areSolid_outlineItemsLines start.toNat hitems)
    subst hb
    rw [nodes, node, nestedLines, innerLines, isList_listTag, if_pos rfl,
      firstNumber_listTag _ (List.length_pos_iff.mpr hne) hnumerals, pure_bind, isNamed_listTag, hlist,
      pure_bind, hlines, pure_bind, hrest, pure_bind, outlineChildLines, List.map_append, outlineLines]
termination_by bs => sizeOf bs

end

/-- The element of an outline becomes its lines. -/
theorem blockNode_outline (s : Surroundings) {b : Block} (h : isOutline b = true) :
    blockNode none s (node code b) = pure (closeLines (outlineLines b)) := by
  obtain ⟨ordered, start, items, rfl, hne, hnumerals, hitems⟩ := exists_items_of_isOutline h
  have hrole : blockRole (listTag ordered start (isTaskList items)) = .list := by
    cases ordered <;> rfl
  obtain ⟨ts, hlist, hflat⟩ := listLines_itemNodes code (areShort_of_areNumerals hnumerals) items
    hitems start.toNat le_rfl (if ordered then start.toNat else 0) fun ho => if_pos ho
  rw [node, blockNode, orElse_none, hrole]
  show listing none _ _ = _
  rw [listing, firstNumber_listTag _ (List.length_pos_iff.mpr hne) hnumerals, pure_bind,
    isNamed_listTag, hlist, map_pure, ← closeLines_flatMap_lines, hflat, outlineLines]

/-! ### Blocks -/

/-- Blocks with a blank line behind each are their lines, with a blank line behind them all. -/
theorem flatMap_closeLines {bs : List Block} (hne : bs ≠ []) (h : areBlocks bs = true) :
    bs.flatMap (fun b => closeLines (blockLines b)) = closeLines (lines bs) := by
  induction bs with
  | nil => exact absurd rfl hne
  | cons b r ih =>
    rw [areBlocks_cons] at h
    cases r with
    | nil => simp [lines]
    | cons c r =>
      have hb := (framed_blockLines b h.1).ne_nil
      have hrest := (framed_lines (c :: r) (by simp) h.2.2).ne_nil
      rw [List.flatMap_cons, ih (by simp) h.2.2, lines, closeLines, closeLines, closeLines,
        unlines_append hb (by simp), unlines_cons [] hrest]
      simp

/-- No line of a block is empty. -/
theorem ne_nil_of_mem_blockLines {b : Block} (h : isBlock b = true) {l : Text}
    (hl : l ∈ blockLines b) : l ≠ [] := by
  have hpipes : ∀ cells, pipeRow cells ≠ [] := fun cells => by simp [pipeRow]
  cases b with
  | heading level content =>
    rw [blockLines, List.mem_singleton] at hl
    simp [hl]
  | paragraph content =>
    rw [blockLines, List.mem_singleton] at hl
    exact hl ▸ ne_nil_of_isPlain h
  | rule =>
    rw [blockLines, List.mem_singleton] at hl
    simp [hl]
  | code language content detected =>
    simp only [isBlock, Bool.and_eq_true] at h
    rw [blockLines, List.mem_cons, List.mem_append, List.mem_singleton] at hl
    rcases hl with rfl | hl | rfl
    · simp [Canonical.fence]
    · have hline := List.all_eq_true.mp h.1.2 l hl
      rintro rfl
      cases hline
    · simp [Canonical.fence]
  | list ordered start items => exact ne_nil_of_mem_itemsLines hl
  | table headers alignments rows =>
    rw [blockLines, List.mem_cons, List.mem_cons, List.mem_map] at hl
    rcases hl with rfl | rfl | ⟨row, -, rfl⟩ <;> exact hpipes _
  | definitions items =>
    simp only [isBlock, Bool.and_eq_true] at h
    obtain ⟨d, hd, hl⟩ := List.mem_flatMap.mp hl
    rcases List.mem_cons.mp hl with rfl | hl
    · exact ne_nil_of_isPlain (isDefinition_iff.mp (List.all_eq_true.mp h.2 d hd)).1
    · obtain ⟨m, -, rfl⟩ := List.mem_map.mp hl
      simp
  | quote content children =>
    obtain ⟨k, -, rfl⟩ := List.mem_map.mp hl
    unfold quoted
    split <;> simp
  | footnote => cases h
  | foreign => cases h

theorem areSolid_blockLines {b : Block} (h : isBlock b = true) : AreSolid (blockLines b) :=
  (framed_blockLines b h).areSolid fun _ => ne_nil_of_mem_blockLines h

/-- Framed lines in a quote. -/
theorem quote_closeLines {ls : List Text} (h : Framed ls) :
    quote (closeLines ls) = closeLines (ls.map quoted) := by
  rw [quote, closeLines, h.trim_unlines (by decide), h.lines_unlines]
  rfl

mutual

/-- The element of a block becomes its lines. -/
theorem blockNode_node (hcode : ShowsCode e code) (s : Surroundings) (hs : s.underHead = false) :
    (b : Block) → isBlock b = true →
      blockNode none s (node code b) = pure (closeLines (blockLines b))
  | .heading level content, h => by
    simp only [isBlock, Bool.and_eq_true, decide_eq_true_eq] at h
    exact blockNode_heading s h.1 h.2
  | .paragraph content, h => blockNode_paragraph s h
  | .rule, _ => blockNode_rule s
  | .code language content detected, h => by
    simp only [isBlock, Bool.and_eq_true] at h
    exact blockNode_code hcode s detected h.1.1 h.1.2
  | .list ordered start items, h => by
    obtain ⟨-, -, hlines⟩ := isTree_of_isBlock rfl h
    rw [blockNode_outline s (isOutline_of_isBlock rfl h).1, hlines]
  | .table headers alignments rows, h => by
    simp only [isBlock, Bool.and_eq_true, decide_eq_true_eq] at h
    exact blockNode_table hs (isRow_iff.mp h.1.1).1 (isCellText_of_isRow h.1.1) h.1.2 fun row hrow =>
      ⟨(isRow_iff.mp (List.all_eq_true.mp h.2 row hrow)).1, isCellText_of_all_isRow h.2 row hrow⟩
  | .definitions items, h => by
    simp only [isBlock, Bool.and_eq_true, Bool.not_eq_true', List.isEmpty_eq_false_iff] at h
    exact blockNode_definitions s h.1 h.2
  | .quote content children, h => by
    simp only [isBlock, Bool.and_eq_true, Bool.not_eq_true', List.isEmpty_eq_false_iff] at h
    have hrole : blockRole ⟨"blockquote".toList, []⟩ = .quote := by rfl
    have hhead : (s.inside ⟨"blockquote".toList, []⟩).underHead = false := by
      rw [Surroundings.inside, hs]
      rfl
    have hinner := blockNodes_nodes hcode _ hhead children h.2
    rw [flatMap_closeLines h.1.2 h.2] at hinner
    rw [node, bare, blockNode, orElse_none, hrole]
    show quote <$> blockNodes none _ _ = _
    rw [hinner, map_pure, quote_closeLines (framed_lines children h.1.2 h.2)]
    rfl
  | .footnote _ _, h => by cases h
  | .foreign _, h => by cases h

theorem blockNodes_nodes (hcode : ShowsCode e code) (s : Surroundings) (hs : s.underHead = false) :
    (bs : List Block) → areBlocks bs = true →
      blockNodes none s (nodes code bs) = pure (bs.flatMap fun b => closeLines (blockLines b))
  | [], _ => rfl
  | b :: r, h => by
    rw [areBlocks_cons] at h
    rw [nodes, blockNodes, blockNode_node hcode s hs b h.1, pure_bind,
      blockNodes_nodes hcode s hs r h.2.2, pure_bind, List.flatMap_cons]

end

end Markdown.Canonical
