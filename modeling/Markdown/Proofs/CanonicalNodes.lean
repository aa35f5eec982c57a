import Markdown.Proofs.CanonicalListing
import Markdown.Proofs.CodeNodes
import Markdown.Render

/-!
# The trees of canonical documents

`Canonical.node` gives the element that a block with a canonical form becomes. Rendering writes it
(`Canonical.answer_blockHtml`), and so the reader of HTML gets it back. The nodes inside a code block
come from highlighting and are a parameter here (`Canonical.ShowsCode`).
-/

namespace Markdown.Canonical

open Html (Node Tag)
open Text

/-! ### Elements -/

/-- Ordinary text. -/
def plain (t : Text) : Node :=
  .text .plain t

/-- An element without attributes. -/
def bare (name : String) (children : List Node) : Node :=
  .element ⟨name.toList, []⟩ children

/-- The element of code. -/
def codeTag (language : Text) (detected : Bool) : Tag :=
  ⟨"code".toList,
    (if language.isEmpty then [] else [("class".toList, "language-".toList ++ language)]) ++
      if detected then [("autodetected".toList, [])] else []⟩

/-- A code block, with the nodes of its code. -/
def codeNode (language : Text) (detected : Bool) (inner : List Node) : Node :=
  bare "pre" [.element (codeTag language detected) inner]

/-- The element of a list. -/
def listTag (ordered : Bool) (start : Int) (task : Bool) : Tag :=
  if ordered then ⟨"ol".toList, if start = 1 then [] else [("start".toList, ofInt start)]⟩
  else ⟨"ul".toList, if task then [("class".toList, "task-list".toList)] else []⟩

/-- The element of an entry. -/
def itemTag (checked : Option Bool) : Tag :=
  ⟨"li".toList, if checked.isSome then [("class".toList, "task-list-item".toList)] else []⟩

/-- The element of a box. -/
def boxTag (ticked : Bool) : Tag :=
  ⟨"input".toList, ("type".toList, "checkbox".toList) ::
    ((if ticked then [("checked".toList, [])] else []) ++ [("disabled".toList, [])])⟩

/-- Lines with a break between them. -/
def lineNodes : List Text → List Node
  | [] => []
  | [l] => [plain l]
  | l :: k :: r => plain l :: bare "br" [] :: lineNodes (k :: r)

/-- The text of an entry, with its box if it has one. -/
def itemText (content : Text) : Option Bool → List Node
  | none => lineNodes (Text.lines content)
  | some ticked => .element (boxTag ticked) [] :: lineNodes (Text.lines (' ' :: content))

/-- The attributes of a cell. -/
def alignmentAttributes (a : Option Alignment) : List (Text × Text) :=
  match a with
  | some a => [("style".toList, "text-align: ".toList ++ a.name)]
  | none => []

/-- The element of a cell. -/
def cellTag (name : String) (a : Option Alignment) : Tag :=
  ⟨name.toList, alignmentAttributes a⟩

/-- The cells of a row. -/
def cellNodes (name : String) : List (Option Alignment) → List Text → List Node
  | _, [] => []
  | alignments, cell :: cells =>
    .element (cellTag name alignments.head?.join) [plain cell] ::
      cellNodes name alignments.tail cells

/-- A table. -/
def tableNode (headers : List Text) (alignments : List (Option Alignment))
    (rows : List (List Text)) : Node :=
  bare "table" (bare "thead" [bare "tr" (cellNodes "th" alignments headers)] ::
    if rows.isEmpty then []
    else [bare "tbody" (rows.map fun row => bare "tr" (cellNodes "td" alignments row))])

/-- A term with its definitions. -/
def definitionNodes (d : Definition) : List Node :=
  bare "dt" [plain d.term] :: d.meanings.map fun m => bare "dd" [plain m]

variable (code : Text → Text → List Node)

mutual

/-- The element of a block. -/
def node : Block → Node
  | .heading level content => .element ⟨'h' :: ofInt level, []⟩ [plain content]
  | .paragraph content => bare "p" [plain content]
  | .rule => bare "hr" []
  | .code language content detected => codeNode language detected (code language content)
  | .list ordered start items =>
    .element (listTag ordered start (isTaskList items)) (itemNodes items)
  | .table headers alignments rows => tableNode headers alignments rows
  | .definitions items => bare "dl" (items.flatMap definitionNodes)
  | .quote _ children => bare "blockquote" (nodes children)
  | .footnote _ _ => plain []
  | .foreign _ => plain []

/-- The elements of blocks. -/
def nodes : List Block → List Node
  | [] => []
  | b :: r => node b :: nodes r

/-- The element of an entry. -/
def itemNode : Item → Node
  | .mk content checked children =>
    .element (itemTag checked) (itemText content checked ++ nodes children)

/-- The elements of entries. -/
def itemNodes : List Item → List Node
  | [] => []
  | i :: r => itemNode i :: itemNodes r

end

variable {code} {t : Text}

theorem nodes_eq_map (bs : List Block) : nodes code bs = bs.map (node code) := by
  induction bs with
  | nil => rfl
  | cons b bs ih => rw [nodes, ih, List.map_cons]

/-! ### Containers -/

/-- A tag around content in which white space does not count. -/
def isContainer (tag : Tag) : Bool :=
  tag.isWritten && !tag.isEmptyElement && !tag.isPreformatted

theorem isEmptyElement_of_isContainer {tag : Tag} (h : isContainer tag = true) :
    tag.isEmptyElement = false := by
  simp only [isContainer, Bool.and_eq_true, Bool.not_eq_true'] at h
  exact h.1.2

theorem isContainer_listTag (ordered : Bool) (start : Int) (task : Bool) :
    isContainer (listTag ordered start task) = true := by
  unfold listTag
  split
  · split <;> rfl
  · split <;> rfl

theorem isContainer_itemTag (checked : Option Bool) : isContainer (itemTag checked) = true := by
  rcases checked with _ | _ <;> rfl

theorem isContainer_heading {level : Int} (h : 1 ≤ level ∧ level ≤ 6) :
    isContainer ⟨'h' :: ofInt level, []⟩ = true := by
  obtain rfl | rfl | rfl | rfl | rfl | rfl : level = 1 ∨ level = 2 ∨ level = 3 ∨ level = 4 ∨
      level = 5 ∨ level = 6 := by omega
  all_goals rfl

theorem isContainer_cellTag {name : String} (hname : name = "th" ∨ name = "td")
    (a : Option Alignment) : isContainer (cellTag name a) = true := by
  rcases hname with rfl | rfl <;> rcases a with _ | _ <;> rfl

/-! ### The written form -/


theorem escape_of_isPlain (h : isPlain t = true) : Html.escape t = t :=
  escape_of_isTextChar fun _ hc => isTextChar_of_mem h hc

theorem IsCellText.writes_plain (h : IsCellText t) : Node.writes [plain t] = t := by
  rw [Node.writes, Node.writes, List.append_nil]
  exact escape_of_isMild h.isMild

theorem write_element {tag : Tag} (h : tag.isEmptyElement = false) (children : List Node) :
    (Node.element tag children).write =
      tag.startText ++ (Node.writes children ++ tag.endText) := by
  rw [Node.write, h]
  rfl

theorem write_bare {name : String} (h : (Tag.mk name.toList []).isEmptyElement = false)
    (children : List Node) :
    (bare name children).write = Inline.element name (Node.writes children) := by
  rw [bare, write_element h, Tag.startText, h, Tag.endText, Inline.element]
  simp [Html.attributesText]

theorem writes_plain (h : isPlain t = true) : Node.writes [plain t] = t :=
  (isCellText_of_isPlain h).writes_plain

theorem startText_codeTag (language : Text) (detected : Bool) :
    (codeTag language detected).startText = "<code".toList ++
      ((if language.isEmpty then []
        else " class=\"language-".toList ++ Html.escape language ++ ['"']) ++
          ((if detected then " autodetected".toList else []) ++ ['>'])) := by
  have hempty : (codeTag language detected).isEmptyElement = false := by rfl
  have hname : Html.escape "language-".toList = "language-".toList := by decide +kernel
  have hdetected : Html.attributesText false
      (if detected then [("autodetected".toList, [])] else []) =
        (if detected then " autodetected".toList else []) ++ ['>'] := by
    cases detected <;> decide +kernel
  rw [Tag.startText, hempty, codeTag]
  cases language with
  | nil =>
    rw [List.isEmpty_nil, if_pos rfl, if_pos rfl, List.nil_append, List.nil_append, hdetected]
    rfl
  | cons c r =>
    have hvalue : Html.valueText ("language-".toList ++ c :: r) =
        '=' :: '"' :: ("language-".toList ++ Html.escape (c :: r) ++ ['"']) := by
      rw [Html.valueText, Html.escape_append, hname, if_neg (by simp)]
    simp only [List.isEmpty_cons, Bool.false_eq_true, if_false, List.singleton_append,
      Html.attributesText, hdetected, hvalue]
    generalize Html.escape (c :: r) = name
    repeat rw [String.toList_ofList]
    simp

theorem write_codeNode (language : Text) (detected : Bool) (inner : List Node) :
    (codeNode language detected inner).write = "<pre><code".toList ++
      (if language.isEmpty then []
        else " class=\"language-".toList ++ Html.escape language ++ ['"']) ++
      (if detected then " autodetected".toList else []) ++
      '>' :: Node.writes inner ++ "</code></pre>".toList := by
  rw [codeNode, write_bare (by rfl), Node.writes, Node.writes, write_element (by rfl),
    startText_codeTag, Tag.endText, Inline.element, codeTag]
  generalize (if language.isEmpty then []
    else " class=\"language-".toList ++ Html.escape language ++ ['"']) = written
  generalize (if detected then " autodetected".toList else []) = mark
  repeat rw [String.toList_ofList]
  simp

theorem escape_ofInt (n : Int) : Html.escape (ofInt n) = ofInt n := by
  have hnat : ∀ n, Html.escape (ofNat n) = ofNat n := fun n =>
    escape_of_isTextChar fun c hc => by simp [isTextChar, isAsciiDigit_of_mem_ofNat hc]
  have hsign : Html.escapeChar '-' = ['-'] := by decide
  cases n with
  | ofNat n => exact hnat n
  | negSucc n => rw [ofInt, Html.escape_cons, hsign, hnat, List.singleton_append]

theorem endText_listTag (ordered : Bool) (start : Int) (task : Bool) :
    (listTag ordered start task).endText = Rendering.listClosing ordered := by
  cases ordered <;> rfl

theorem startText_listTag (ordered : Bool) (start : Int) (task : Bool) :
    (listTag ordered start task).startText = Rendering.listOpening ordered start task := by
  cases ordered with
  | false =>
    show (Tag.mk "ul".toList
        (if task then [("class".toList, "task-list".toList)] else [])).startText =
      if task then "<ul class=\"task-list\">".toList else "<ul>".toList
    cases task <;> decide +kernel
  | true =>
    have hempty : (listTag true start task).isEmptyElement = false := by rfl
    rw [Tag.startText, hempty, listTag, Rendering.listOpening, if_pos rfl, if_pos rfl]
    by_cases hstart : start = 1
    · rw [if_pos hstart, if_pos hstart]
      rfl
    · have hne : (ofInt start).isEmpty = false := by
        cases start with
        | ofNat n =>
          obtain ⟨d, r, hd, -⟩ := exists_cons_ofNat n
          rw [ofInt, hd]
          rfl
        | negSucc n => rfl
      have hvalue : Html.valueText (ofInt start) = '=' :: '"' :: (ofInt start ++ ['"']) := by
        rw [Html.valueText, hne, escape_ofInt]
        rfl
      rw [if_neg hstart, if_neg hstart]
      simp only [Html.attributesText, hvalue]
      generalize ofInt start = numeral
      repeat rw [String.toList_ofList]
      simp

theorem writes_lineNodes (ls : List Text) :
    Node.writes (lineNodes ls) = "<br />".toList.intercalate (ls.map Html.escape) := by
  have hbreak : (bare "br" []).write = "<br />".toList := by decide +kernel
  induction ls with
  | nil => rfl
  | cons l r ih =>
    cases r with
    | nil =>
      rw [lineNodes, Node.writes, Node.writes, List.map_cons, List.map_nil, List.intercalate_singleton,
        List.append_nil]
      rfl
    | cons k r =>
      rw [lineNodes, Node.writes, Node.writes, ih, hbreak]
      simp only [List.map_cons, List.intercalate_cons_cons, List.append_assoc]
      rfl

/-- A space behind a box stands in front of the first line. -/
theorem lines_space_cons {l : Text} {ls : List Text} (h : Text.lines t = l :: ls) :
    Text.lines (' ' :: t) = (' ' :: l) :: ls := by
  rw [← List.singleton_append, lines_append_of_not_mem (by decide), h]
  rfl

theorem startText_itemTag (checked : Option Bool) (content : Text) :
    (itemTag checked).startText ++ Node.writes (itemText content checked) =
      Rendering.itemOpening checked ++
        "<br />".toList.intercalate ((Text.lines content).map Html.escape) := by
  rcases checked with _ | ticked
  · have hopening : (itemTag none).startText = "<li>".toList := by
      show (Tag.mk "li".toList []).startText = _
      decide +kernel
    rw [hopening, itemText, writes_lineNodes]
    rfl
  · have hopening : (itemTag (some ticked)).startText = "<li class=\"task-list-item\">".toList := by
      show (Tag.mk "li".toList [("class".toList, "task-list-item".toList)]).startText = _
      decide +kernel
    have hspace : ∀ t, Html.escape (' ' :: t) = ' ' :: Html.escape t := by
      intro t
      have hchar : Html.escapeChar ' ' = [' '] := by decide
      rw [Html.escape_cons, hchar]
      rfl
    have hbox : "<li class=\"task-list-item\">".toList ++
        ((Node.element (boxTag ticked) []).write ++ [' ']) =
          Rendering.itemOpening (some ticked) := by
      cases ticked <;> decide +kernel
    have htext : "<br />".toList.intercalate ((Text.lines (' ' :: content)).map Html.escape) =
        ' ' :: "<br />".toList.intercalate ((Text.lines content).map Html.escape) := by
      obtain ⟨l, ls, hlines⟩ := exists_cons_lines content
      rw [lines_space_cons hlines, hlines, List.map_cons, List.map_cons, hspace]
      cases ls.map Html.escape with
      | nil => rw [List.intercalate_singleton, List.intercalate_singleton]
      | cons k r => rw [List.intercalate_cons_cons, List.intercalate_cons_cons, List.append_assoc,
          List.append_assoc, List.cons_append]
    rw [hopening, itemText, Node.writes, writes_lineNodes, htext, ← hbox]
    simp only [List.append_assoc, List.singleton_append]

theorem startText_cellTag {name : String} (h : (Tag.mk name.toList []).isEmptyElement = false)
    (a : Option Alignment) :
    (cellTag name a).startText =
      '<' :: (name.toList ++ (Rendering.alignmentAttribute a ++ ['>'])) := by
  have hempty : (cellTag name a).isEmptyElement = false := h
  have hattributes : Html.attributesText false (alignmentAttributes a) =
      Rendering.alignmentAttribute a ++ ['>'] := by
    rcases a with _ | _ | _ | _ <;> decide +kernel
  rw [Tag.startText, hempty, cellTag, hattributes]

/-! ### Rendering -/

/-- Nodes for code that rendering writes. They are read back inside preformatted text, and their text
is the code. -/
structure ShowsCode (e : Rendering) (code : Text → Text → List Node) : Prop where
  /-- They are written. -/
  answer : ∀ language content detected, (e.codeHtml language content detected).answer =
    .ok (codeNode language detected (code language content)).write
  /-- They are read back. -/
  areWritten : ∀ language content, Node.areWritten true (code language content) = true
  /-- Their text is the code. -/
  textsWhere_eq : ∀ language content p, p Html.TextKind.plain = true →
    Node.textsWhere p (code language content) = content

theorem exists_showsCode {e : Rendering} (h : e.registry = Highlight.Registry.builtin) :
    ∃ code, ShowsCode e code := by
  have hbody : ∀ language content, ∃ ns : List Node,
      (∀ detected, (e.codeHtml language content detected).answer =
        .ok (codeNode language detected ns).write) ∧
        Node.areWritten true ns = true ∧
        ∀ p, p Html.TextKind.plain = true → Node.textsWhere p ns = content := by
    intro language content
    unfold Rendering.codeHtml
    dsimp only
    split
    · obtain ⟨ps, hps, hcode⟩ :=
        Highlight.exists_pieces_highlight (some language) e.swatches content
      obtain ⟨ns, hns⟩ := Highlight.exists_isCode ps
      refine ⟨ns, fun detected => ?_, hns.areWritten, fun p hp => (hns.textsWhere_eq p hp).trans hcode⟩
      rw [h, Report.answer_bind_of_ok hps, write_codeNode, hns.writes_eq]
      rfl
    · obtain ⟨ns, hns⟩ := Highlight.isCode_nil.text content
      rw [List.append_nil, List.append_nil] at hns
      refine ⟨ns, fun detected => ?_, hns.areWritten, hns.textsWhere_eq⟩
      rw [pure_bind, write_codeNode, hns.writes_eq]
      rfl
  choose code hanswer hwritten htext using hbody
  exact ⟨code, hanswer, hwritten, htext⟩

variable {e : Rendering}

theorem IsCellText.inlineHtml (h : IsCellText t) : e.inlineHtml t = pure t :=
  h.render e.references e.sanitize

theorem inlineHtml_of_isPlain (h : isPlain t = true) : e.inlineHtml t = pure t :=
  (isCellText_of_isPlain h).inlineHtml

/-- The line feeds of a text become breaks, if there are no breaks yet in front of them. -/
theorem breakLines_eq_intercalate
    (h : replaceBy (Rule.fixed "<br />\n".toList "<br />".toList) t = t) :
    Rendering.breakLines t = "<br />".toList.intercalate (Text.lines t) := by
  have hlines : ∀ ls : List Text, (∀ l ∈ ls, '\n' ∉ l) →
      ((unlines ls).flatMap fun c => if c = '\n' then "<br />".toList else [c]) =
        "<br />".toList.intercalate ls := by
    intro ls hclean
    induction ls with
    | nil => rfl
    | cons l r ih =>
      obtain ⟨hl, hr⟩ := List.forall_mem_cons.mp hclean
      have hline : (l.flatMap fun c => if c = '\n' then "<br />".toList else [c]) = l :=
        flatMap_eq_self fun c hc => if_neg (ne_of_mem_of_not_mem hc hl)
      cases r with
      | nil => rw [unlines, List.intercalate_singleton, hline, List.intercalate_singleton]
      | cons k r =>
        rw [unlines_cons l (by simp), List.flatMap_append, List.flatMap_cons, ih hr, hline, if_pos rfl,
          List.intercalate_cons_cons, List.append_assoc]
  have hclean : ∀ l ∈ Text.lines t, '\n' ∉ l := fun l hl => separator_notMem_of_mem_splitOn hl
  rw [Rendering.breakLines, h, ← hlines _ hclean, unlines_lines]

/-- A line has no breaks. -/
theorem breakLines_of_not_mem (h : '\n' ∉ t) : Rendering.breakLines t = t := by
  have hidle : Idle (fun c => decide (c ≠ '\n')) (Rule.fixed "<br />\n".toList "<br />".toList) :=
    idle_fixed _ ⟨'\n', by decide, by decide⟩
  rw [breakLines_eq_intercalate (hidle.replaceBy fun c hc => decide_eq_true (ne_of_mem_of_not_mem hc h)),
    lines_of_not_mem h, List.intercalate_singleton]

theorem linesHtml_of_isWrapped (h : isWrapped t = true) :
    e.linesHtml t = pure ("<br />".toList.intercalate ((Text.lines t).map Html.escape)) := by
  have hescape : (Text.lines t).map Html.escape = Text.lines t := by
    conv_rhs => rw [← List.map_id (Text.lines t)]
    exact List.map_congr_left fun l hl => escape_of_isPlain (isPlain_of_mem_lines h l hl)
  have hopens : '<' ∉ t := by
    intro hmem
    rw [← unlines_lines t] at hmem
    refine absurd rfl (forall_mem_intercalate (P := fun c => c ≠ '<') ?_ (fun l hl c hc => ?_) _ hmem)
    · exact List.forall_mem_singleton.mpr (by decide)
    · exact ne_of_class (isTextChar_of_mem (isPlain_of_mem_lines h l hl) hc) (by decide)
  have hidle : Idle (fun c => decide (c ≠ '<')) (Rule.fixed "<br />\n".toList "<br />".toList) :=
    idle_fixed _ ⟨'<', by decide, by decide⟩
  rw [Rendering.linesHtml, Rendering.inlineHtml, render_of_isWrapped h, map_pure,
    breakLines_eq_intercalate (hidle.replaceBy fun c hc =>
      decide_eq_true (ne_of_mem_of_not_mem hc hopens)), hescape]

theorem linesHtml_of_isPlain (h : isPlain t = true) : e.linesHtml t = pure t := by
  rw [Rendering.linesHtml, inlineHtml_of_isPlain h, map_pure,
    breakLines_of_not_mem (not_mem_of_isPlain h (by decide))]

theorem cellsHtml_eq {name : String} (hname : (Tag.mk name.toList []).isEmptyElement = false)
    (alignments : List (Option Alignment)) {cells : List Text} (h : ∀ t ∈ cells, IsCellText t) :
    e.cellsHtml name alignments cells = pure (Node.writes (cellNodes name alignments cells)) := by
  induction cells generalizing alignments with
  | nil => rfl
  | cons cell cells ih =>
    obtain ⟨hcell, hcells⟩ := List.forall_mem_cons.mp h
    have hempty : (cellTag name alignments.head?.join).isEmptyElement = false := hname
    rw [Rendering.cellsHtml, hcell.inlineHtml, pure_bind, ih _ hcells, pure_bind,
      cellNodes, Node.writes, write_element hempty, startText_cellTag hname, hcell.writes_plain]
    simp [Tag.endText, cellTag]

theorem tableHtml_eq {headers : List Text} (alignments : List (Option Alignment))
    {rows : List (List Text)} (hheaders : ∀ t ∈ headers, IsCellText t)
    (hrows : ∀ row ∈ rows, ∀ t ∈ row, IsCellText t) :
    e.tableHtml headers alignments rows = pure (tableNode headers alignments rows).write := by
  have hrow : ∀ row ∈ rows, (do
      let cells ← e.cellsHtml "td" alignments row
      pure (Inline.element "tr" cells)) =
        (pure (bare "tr" (cellNodes "td" alignments row)).write : Report Text) := by
    intro row hrow
    rw [cellsHtml_eq rfl alignments (hrows row hrow), pure_bind, write_bare (by rfl)]
  have hbody : e.rowsHtml alignments rows =
      pure (Node.writes (rows.map fun row => bare "tr" (cellNodes "td" alignments row))) := by
    rw [Rendering.rowsHtml, Report.mapM_eq_pure hrow, pure_bind, Node.writes_eq_flatMap,
      List.flatMap_map, List.flatMap_def]
  rw [Rendering.tableHtml, cellsHtml_eq (by rfl) alignments hheaders, pure_bind,
    hbody, pure_bind, tableNode, write_bare (by rfl), Node.writes, write_bare (by rfl), Node.writes,
    Node.writes, write_bare (by rfl)]
  cases rows with
  | nil =>
    simp only [List.isEmpty_nil, if_true, Node.writes, Inline.element]
    repeat rw [String.toList_ofList]
    simp
  | cons row rows =>
    rw [List.isEmpty_cons, if_neg (by simp), if_neg (by simp), Node.writes, Node.writes,
      write_bare (by rfl)]
    generalize Node.writes
      ((row :: rows).map fun row => bare "tr" (cellNodes "td" alignments row)) = body
    simp only [Inline.element]
    repeat rw [String.toList_ofList]
    simp

theorem definitionHtml_eq {d : Definition} (h : isDefinition d = true) :
    e.definitionHtml d = pure (Node.writes (definitionNodes d)) := by
  obtain ⟨hterm, -, hmeanings⟩ := isDefinition_iff.mp h
  have hmeaning : ∀ m ∈ d.meanings,
      Inline.element "dd" <$> e.inlineHtml m =
        (pure (bare "dd" [plain m]).write : Report Text) := by
    intro m hm
    have hplain := List.all_eq_true.mp hmeanings m hm
    rw [inlineHtml_of_isPlain hplain, map_pure, write_bare (by rfl), writes_plain hplain]
  rw [Rendering.definitionHtml, inlineHtml_of_isPlain hterm, pure_bind,
    Report.mapM_eq_pure hmeaning, pure_bind, definitionNodes, Node.writes, write_bare (by rfl), writes_plain hterm,
    Node.writes_eq_flatMap, List.flatMap_map, List.flatMap_def]

theorem definitionsHtml_eq {items : List Definition} (h : items.all isDefinition = true) :
    e.definitionsHtml items = pure (bare "dl" (items.flatMap definitionNodes)).write := by
  have hitem : ∀ d ∈ items, e.definitionHtml d = pure (Node.writes (definitionNodes d)) :=
    fun d hd => definitionHtml_eq (List.all_eq_true.mp h d hd)
  have hwrites : Node.writes (items.flatMap definitionNodes) =
      (items.map fun d => Node.writes (definitionNodes d)).flatten := by
    simp only [Node.writes_eq_flatMap, List.flatMap_assoc]
    rw [List.flatMap_def]
  rw [Rendering.definitionsHtml, Report.mapM_eq_pure hitem, pure_bind, write_bare (by rfl), hwrites]

/-- A list is written if its entries are. -/
theorem answer_listHtml {quoted : Text → Report Text} {items : List Item} (ordered : Bool)
    (start : Int) (h : (e.itemsHtml quoted items).answer = .ok (Node.writes (itemNodes code items))) :
    (e.blockHtml quoted (.list ordered start items)).answer =
      .ok (node code (.list ordered start items)).write := by
  rw [Rendering.blockHtml, Report.answer_bind_of_ok h, node,
    write_element (isEmptyElement_of_isContainer (isContainer_listTag ordered start _)),
    startText_listTag, endText_listTag, ← List.append_assoc]
  rfl

mutual

/-- The entries of outlines are written. -/
theorem answer_itemsHtml (code : Text → Text → List Node) (quoted : Text → Report Text)
    (ordered : Bool) :
    (items : List Item) → areOutlineItems ordered items = true →
      (e.itemsHtml quoted items).answer = .ok (Node.writes (itemNodes code items))
  | [], _ => rfl
  | .mk content checked children :: r, h => by
    rw [areOutlineItems_cons, isOutlineItem_mk] at h
    obtain ⟨⟨hcontent, -, hchildren⟩, hr⟩ := h
    have hitem : (e.itemHtml quoted (.mk content checked children)).answer =
        .ok (itemNode code (.mk content checked children)).write := by
      rw [Rendering.itemHtml, linesHtml_of_isWrapped hcontent, pure_bind,
        Report.answer_bind_of_ok (answer_outlinesHtml code quoted children hchildren), itemNode,
        write_element (by rfl), Node.writes_append, ← List.append_assoc, ← List.append_assoc,
        startText_itemTag]
      rfl
    rw [Rendering.itemsHtml, Report.answer_bind_of_ok hitem,
      Report.answer_bind_of_ok (answer_itemsHtml code quoted ordered r hr)]
    rfl
termination_by items => sizeOf items

theorem answer_outlinesHtml (code : Text → Text → List Node) (quoted : Text → Report Text) :
    (bs : List Block) → areOutlines bs = true →
      (e.blocksHtml quoted bs).answer = .ok (Node.writes (nodes code bs))
  | [], _ => rfl
  | b :: r, h => by
    rw [areOutlines_cons] at h
    obtain ⟨ordered, start, items, hb, -, -, hitems⟩ := exists_items_of_isOutline h.1
    have hlist := answer_listHtml ordered start (answer_itemsHtml code quoted ordered items hitems)
    have hrest := answer_outlinesHtml code quoted r h.2.2
    subst hb
    rw [Rendering.blocksHtml, Report.answer_bind_of_ok hlist, Report.answer_bind_of_ok hrest]
    rfl
termination_by bs => sizeOf bs

end

mutual

theorem answer_blockHtml (hcode : ShowsCode e code) (quoted : Text → Report Text) :
    (b : Block) → isBlock b = true → (e.blockHtml quoted b).answer = .ok (node code b).write
  | .heading level content, h => by
    simp only [isBlock, Bool.and_eq_true] at h
    have hempty := isEmptyElement_of_isContainer (isContainer_heading (by simpa using h.1))
    rw [Rendering.blockHtml, inlineHtml_of_isPlain h.2, pure_bind, node, write_element hempty,
      writes_plain h.2, Tag.startText, hempty, Tag.endText]
    simp only [Html.attributesText, Bool.false_eq_true, if_false, List.cons_append,
      List.append_assoc, List.nil_append]
    rfl
  | .paragraph content, h => by
    rw [Rendering.blockHtml, linesHtml_of_isPlain h, map_pure, node, write_bare (by rfl),
      writes_plain h]
    rfl
  | .rule, _ => by
    have hwrite : (bare "hr" []).write = "<hr />".toList := by decide +kernel
    rw [node, hwrite]
    rfl
  | .code language content detected, h => by
    exact hcode.answer language content detected
  | .list ordered start items, h => by
    simp only [isBlock, Bool.and_eq_true] at h
    exact answer_listHtml ordered start
      (answer_itemsHtml code quoted ordered items (areOutlineItems_of_areItems ordered items h.2).1)
  | .table headers alignments rows, h => by
    simp only [isBlock, Bool.and_eq_true] at h
    rw [Rendering.blockHtml, tableHtml_eq alignments (isCellText_of_isRow h.1.1)
      (isCellText_of_all_isRow h.2)]
    rfl
  | .definitions items, h => by
    simp only [isBlock, Bool.and_eq_true] at h
    rw [Rendering.blockHtml, definitionsHtml_eq h.2]
    rfl
  | .quote content children, h => by
    simp only [isBlock, Bool.and_eq_true, Bool.not_eq_true'] at h
    have hchildren := answer_blocksHtml hcode quoted children h.2
    rw [Rendering.blockHtml, h.1.2, Bool.false_and, if_neg (by simp),
      Report.answer_bind_of_ok hchildren, node, write_bare (by rfl)]
    rfl
  | .footnote _ _, h => by cases h
  | .foreign _, h => by cases h

theorem answer_blocksHtml (hcode : ShowsCode e code) (quoted : Text → Report Text) :
    (bs : List Block) → areBlocks bs = true →
      (e.blocksHtml quoted bs).answer = .ok (Node.writes (nodes code bs))
  | [], _ => rfl
  | b :: r, h => by
    rw [areBlocks_cons] at h
    rw [Rendering.blocksHtml, Report.answer_bind_of_ok (answer_blockHtml hcode quoted b h.1),
      Report.answer_bind_of_ok (answer_blocksHtml hcode quoted r h.2.2)]
    rfl

end

/-! ### Reading back -/

theorem isWritten_element {tag : Tag} (h : isContainer tag = true) {children : List Node}
    (hchildren : Node.areWritten false children = true) :
    (Node.element tag children).isWritten false = true := by
  simp only [isContainer, Bool.and_eq_true, Bool.not_eq_true'] at h
  rw [Node.isWritten, h.1.1, h.1.2, h.2, Bool.or_false, hchildren]
  rfl

/-- Elements may stand side by side. -/
theorem areWritten_elements {pre : Bool} {ns : List Node}
    (h : ∀ n ∈ ns, n.isWritten pre = true ∧ Node.beginWithText [n] = false) :
    Node.areWritten pre ns = true := by
  induction ns with
  | nil => rfl
  | cons n ns ih =>
    obtain ⟨hn, hns⟩ := List.forall_mem_cons.mp h
    rw [Node.areWritten, hn.1, hn.2, ih hns]
    rfl

/-- A text that is not white space alone may stand in front of elements. -/
theorem areWritten_text {ns : List Node} (ht : t.all Html.Growth.isSpace = false)
    (hns : Node.areWritten false ns = true) (hstart : Node.beginWithText ns = false) :
    Node.areWritten false (plain t :: ns) = true := by
  have hne : t.isEmpty = false := by
    cases t with
    | nil => cases ht
    | cons c r => rfl
  have hshrink : Html.Growth.empty.shrink t = t := by
    rw [Html.Growth.shrink, ht]
    rfl
  rw [Node.areWritten, hns, hstart, plain, Node.isWritten, hne, hshrink]
  simp

/-- White space of HTML is blank. -/
theorem isSpace_of_isBlank {c : Char} (h : isBlank c = false) : Html.Growth.isSpace c = false := by
  rw [Bool.eq_false_iff]
  intro hspace
  simp only [Html.Growth.isSpace, Bool.or_eq_true, decide_eq_true_eq] at hspace
  rcases hspace with (((rfl | rfl) | rfl) | rfl) | rfl <;> cases h

theorem IsCellText.all_isSpace (h : IsCellText t) : t.all Html.Growth.isSpace = false := by
  obtain ⟨c, r, rfl⟩ := List.exists_cons_of_ne_nil h.ne_nil
  rw [List.all_cons, isSpace_of_isBlank (visible_head_of_trim h.trim_eq), Bool.false_and]

theorem all_isSpace_of_isPlain (h : isPlain t = true) : t.all Html.Growth.isSpace = false :=
  (isCellText_of_isPlain h).all_isSpace

theorem IsCellText.areWritten_plain (h : IsCellText t) : Node.areWritten false [plain t] = true :=
  areWritten_text h.all_isSpace rfl rfl

theorem areWritten_plain (h : isPlain t = true) : Node.areWritten false [plain t] = true :=
  (isCellText_of_isPlain h).areWritten_plain

theorem isWritten_bare_plain {name : String} (hname : isContainer ⟨name.toList, []⟩ = true)
    (h : isPlain t = true) : (bare name [plain t]).isWritten false = true :=
  isWritten_element hname (areWritten_plain h)

theorem areWritten_cellNodes {name : String}
    (hname : ∀ a, isContainer (cellTag name a) = true) (alignments : List (Option Alignment))
    {cells : List Text} (h : ∀ t ∈ cells, IsCellText t) :
    Node.areWritten false (cellNodes name alignments cells) = true := by
  apply areWritten_elements
  induction cells generalizing alignments with
  | nil => simp [cellNodes]
  | cons cell cells ih =>
    obtain ⟨hcell, hcells⟩ := List.forall_mem_cons.mp h
    exact List.forall_mem_cons.mpr
      ⟨⟨isWritten_element (hname _) hcell.areWritten_plain, rfl⟩, ih alignments.tail hcells⟩

theorem isWritten_row {name : String} (hname : name = "th" ∨ name = "td")
    (alignments : List (Option Alignment)) {row : List Text} (h : ∀ t ∈ row, IsCellText t) :
    (bare "tr" (cellNodes name alignments row)).isWritten false = true :=
  isWritten_element (by rfl) (areWritten_cellNodes (isContainer_cellTag hname) alignments h)

theorem isWritten_tableNode {headers : List Text} (alignments : List (Option Alignment))
    {rows : List (List Text)} (hheaders : ∀ t ∈ headers, IsCellText t)
    (hrows : ∀ row ∈ rows, ∀ t ∈ row, IsCellText t) :
    (tableNode headers alignments rows).isWritten false = true := by
  have hhead :
      (bare "thead" [bare "tr" (cellNodes "th" alignments headers)]).isWritten false = true :=
    isWritten_element (by rfl) (areWritten_elements (List.forall_mem_singleton.mpr
      ⟨isWritten_row (.inl rfl) alignments hheaders, rfl⟩))
  have hbody :
      (bare "tbody" (rows.map fun row => bare "tr" (cellNodes "td" alignments row))).isWritten
        false = true := by
    refine isWritten_element (by rfl) (areWritten_elements fun n hn => ?_)
    obtain ⟨row, hrow, rfl⟩ := List.mem_map.mp hn
    exact ⟨isWritten_row (.inr rfl) alignments (hrows row hrow), rfl⟩
  refine isWritten_element (by rfl) (areWritten_elements ?_)
  cases rows with
  | nil => exact List.forall_mem_singleton.mpr ⟨hhead, rfl⟩
  | cons row rows =>
    exact List.forall_mem_cons.mpr ⟨⟨hhead, rfl⟩, List.forall_mem_singleton.mpr ⟨hbody, rfl⟩⟩

theorem isWritten_definitions {items : List Definition} (h : items.all isDefinition = true) :
    (bare "dl" (items.flatMap definitionNodes)).isWritten false = true := by
  refine isWritten_element (by rfl) (areWritten_elements fun n hn => ?_)
  obtain ⟨d, hd, hn⟩ := List.mem_flatMap.mp hn
  obtain ⟨hterm, -, hmeanings⟩ := isDefinition_iff.mp (List.all_eq_true.mp h d hd)
  rcases List.mem_cons.mp hn with rfl | hn
  · exact ⟨isWritten_bare_plain (by rfl) hterm, rfl⟩
  · obtain ⟨m, hm, rfl⟩ := List.mem_map.mp hn
    exact ⟨isWritten_bare_plain (by rfl) (List.all_eq_true.mp hmeanings m hm), rfl⟩

/-- Inside preformatted text, code may be anything. -/
theorem isWritten_codeNode (hcode : ShowsCode e code) (language content : Text) (detected : Bool) :
    (codeNode language detected (code language content)).isWritten false = true := by
  have hcodeTag : (codeTag language detected).isWritten = true := by
    unfold codeTag
    cases detected <;> split <;> rfl
  have hinner :
      (Node.element (codeTag language detected) (code language content)).isWritten true = true := by
    rw [Node.isWritten, hcodeTag, Bool.true_or, hcode.areWritten]
    rfl
  have hpre : (Tag.mk "pre".toList []).isWritten = true := by rfl
  have hpreformatted : (Tag.mk "pre".toList []).isPreformatted = true := by rfl
  have hempty : (Tag.mk "pre".toList []).isEmptyElement = false := by rfl
  rw [codeNode, bare, Node.isWritten, hpre, hpreformatted, hempty, Bool.or_true,
    areWritten_elements (List.forall_mem_singleton.mpr ⟨hinner, rfl⟩)]
  rfl

/-- Lines may stand in front of elements. -/
theorem areWritten_lineNodes {ls : List Text} (hls : ∀ l ∈ ls, l.all Html.Growth.isSpace = false)
    {ns : List Node} (hns : Node.areWritten false ns = true) (hstart : Node.beginWithText ns = false) :
    Node.areWritten false (lineNodes ls ++ ns) = true := by
  induction ls with
  | nil => exact hns
  | cons l r ih =>
    obtain ⟨hl, hr⟩ := List.forall_mem_cons.mp hls
    cases r with
    | nil => exact areWritten_text hl hns hstart
    | cons k r =>
      have hbreak : (bare "br" []).isWritten false = true := by rfl
      have hrest : Node.areWritten false (bare "br" [] :: (lineNodes (k :: r) ++ ns)) = true := by
        rw [Node.areWritten, hbreak, ih hr]
        rfl
      exact areWritten_text hl hrest rfl

theorem areWritten_itemText {content : Text} (h : isWrapped content = true) (checked : Option Bool)
    {ns : List Node} (hns : Node.areWritten false ns = true)
    (hstart : Node.beginWithText ns = false) :
    Node.areWritten false (itemText content checked ++ ns) = true := by
  have hvisible : ∀ l ∈ Text.lines content, l.all Html.Growth.isSpace = false := fun l hl =>
    all_isSpace_of_isPlain (isPlain_of_mem_lines h l hl)
  cases checked with
  | none => exact areWritten_lineNodes hvisible hns hstart
  | some ticked =>
    have hbox : (Node.element (boxTag ticked) []).isWritten false = true := by
      cases ticked <;> rfl
    have htext : Node.areWritten false (lineNodes (Text.lines (' ' :: content)) ++ ns) = true := by
      obtain ⟨l, ls, hlines⟩ := exists_cons_lines content
      rw [hlines, List.forall_mem_cons] at hvisible
      refine areWritten_lineNodes ?_ hns hstart
      rw [lines_space_cons hlines, List.forall_mem_cons]
      exact ⟨by rw [List.all_cons, hvisible.1, Bool.and_false], hvisible.2⟩
    show Node.areWritten false
      (.element (boxTag ticked) [] :: (lineNodes (Text.lines (' ' :: content)) ++ ns)) = true
    rw [Node.areWritten, hbox, htext]
    rfl

theorem beginWithText_of_forall {ns : List Node} (h : ∀ n ∈ ns, Node.beginWithText [n] = false) :
    Node.beginWithText ns = false := by
  cases ns with
  | nil => rfl
  | cons n ns =>
    have hn := h n List.mem_cons_self
    cases n with
    | text kind content => cases hn
    | element tag children => rfl

mutual

/-- The elements of entries of outlines are read back. -/
theorem isWritten_itemNodes (code : Text → Text → List Node) (ordered : Bool) :
    (items : List Item) → areOutlineItems ordered items = true →
      ∀ n ∈ itemNodes code items, n.isWritten false = true ∧ Node.beginWithText [n] = false
  | [], _ => by simp [itemNodes]
  | .mk content checked children :: r, h => by
    rw [areOutlineItems_cons, isOutlineItem_mk] at h
    obtain ⟨⟨hcontent, -, hchildren⟩, hr⟩ := h
    have hnodes := isWritten_outlines code children hchildren
    have hitem : (itemNode code (.mk content checked children)).isWritten false = true :=
      isWritten_element (isContainer_itemTag checked)
        (areWritten_itemText hcontent checked (areWritten_elements hnodes)
          (beginWithText_of_forall fun n hn => (hnodes n hn).2))
    exact List.forall_mem_cons.mpr ⟨⟨hitem, rfl⟩, isWritten_itemNodes code ordered r hr⟩
termination_by items => sizeOf items

theorem isWritten_outlines (code : Text → Text → List Node) :
    (bs : List Block) → areOutlines bs = true →
      ∀ n ∈ nodes code bs, n.isWritten false = true ∧ Node.beginWithText [n] = false
  | [], _ => by simp [nodes]
  | b :: r, h => by
    rw [areOutlines_cons] at h
    obtain ⟨ordered, start, items, hb, -, -, hitems⟩ := exists_items_of_isOutline h.1
    have hlist : (node code (.list ordered start items)).isWritten false = true :=
      isWritten_element (isContainer_listTag ordered start _)
        (areWritten_elements (isWritten_itemNodes code ordered items hitems))
    have hrest := isWritten_outlines code r h.2.2
    subst hb
    exact List.forall_mem_cons.mpr ⟨⟨hlist, rfl⟩, hrest⟩
termination_by bs => sizeOf bs

end

mutual

theorem isWritten_node (hcode : ShowsCode e code) :
    (b : Block) → isBlock b = true →
      (node code b).isWritten false = true ∧ Node.beginWithText [node code b] = false
  | .heading level content, h => by
    simp only [isBlock, Bool.and_eq_true, decide_eq_true_eq] at h
    exact ⟨isWritten_element (isContainer_heading h.1) (areWritten_plain h.2), rfl⟩
  | .paragraph content, h => ⟨isWritten_bare_plain (by rfl) h, rfl⟩
  | .rule, _ => ⟨by rfl, rfl⟩
  | .code language content detected, _ => ⟨isWritten_codeNode hcode language content detected, rfl⟩
  | .list ordered start items, h => by
    simp only [isBlock, Bool.and_eq_true] at h
    have hitems := (areOutlineItems_of_areItems ordered items h.2).1
    exact ⟨isWritten_element (isContainer_listTag ordered start _)
      (areWritten_elements (isWritten_itemNodes code ordered items hitems)), rfl⟩
  | .table headers alignments rows, h => by
    simp only [isBlock, Bool.and_eq_true] at h
    exact ⟨isWritten_tableNode alignments (isCellText_of_isRow h.1.1) (isCellText_of_all_isRow h.2),
      rfl⟩
  | .definitions items, h => by
    simp only [isBlock, Bool.and_eq_true] at h
    exact ⟨isWritten_definitions h.2, rfl⟩
  | .quote content children, h => by
    simp only [isBlock, Bool.and_eq_true] at h
    exact ⟨isWritten_element (by rfl)
      (areWritten_elements (isWritten_nodes hcode children h.2)), rfl⟩
  | .footnote _ _, h => by cases h
  | .foreign _, h => by cases h

theorem isWritten_nodes (hcode : ShowsCode e code) :
    (bs : List Block) → areBlocks bs = true →
      ∀ n ∈ nodes code bs, n.isWritten false = true ∧ Node.beginWithText [n] = false
  | [], _ => by simp [nodes]
  | b :: r, h => by
    rw [areBlocks_cons] at h
    exact List.forall_mem_cons.mpr
      ⟨isWritten_node hcode b h.1, isWritten_nodes hcode r h.2.2⟩

end

end Markdown.Canonical
