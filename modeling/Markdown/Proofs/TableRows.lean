import Markdown.Proofs.CanonicalNodes
import Markdown.Proofs.MarkupFaults

/-!
# The rows of a table

A table becomes the lines of its header row and of the rows that have cells and stand under no head
(`isPipeTable_table`), and a pipe table has one list of rows only (`IsPipeTable.unique`). What stands
under a head besides the header row is lost: all rows with cells are shown exactly if the head has no
other one (`table_shows_rows_iff`).
-/

namespace Markdown.FromHtml

open Canonical (bare plain)
open Html (Node Tag)
open Html.Node
open Text

variable {hook : Option Hook}

/-! ### All rows -/

mutual

/-- The rows in a node, in document order, each with whether it stands under a head. -/
def rowsIn (underHead : Bool) : Node → List (Bool × List Node)
  | .text _ _ => []
  | .element tag children =>
    let inner := rowsAmong (underHead || tag.isNamed "thead") children
    if isRow tag then (underHead, children) :: inner else inner

/-- The rows in some nodes, in document order, each with whether it stands under a head. -/
def rowsAmong (underHead : Bool) : List Node → List (Bool × List Node)
  | [] => []
  | n :: r => rowsIn underHead n ++ rowsAmong underHead r

end

mutual

theorem map_rowsIn (underHead : Bool) :
    (n : Node) → (rowsIn underHead n).map (·.2) = (select isRow (fun _ => false) n).map (·.2)
  | .text _ _ => rfl
  | .element tag children => by
    have hchildren := map_rowsAmong (underHead || tag.isNamed "thead") children
    rw [rowsIn, select]
    dsimp only
    split <;> simp [hchildren]

/-- No row is left out. -/
theorem map_rowsAmong (underHead : Bool) :
    (ns : List Node) →
      (rowsAmong underHead ns).map (·.2) = (selectAmong isRow (fun _ => false) ns).map (·.2)
  | [] => rfl
  | n :: r => by
    rw [rowsAmong, selectAmong, List.map_append, List.map_append, map_rowsIn underHead n,
      map_rowsAmong underHead r]

end

/-- Whether a row has cells. -/
def hasCells (row : List Node) : Bool :=
  !(elements isCell row).isEmpty

/-- The rows of a table that have cells and stand under a head of it. -/
def headRows (children : List Node) : List (List Node) :=
  (((rowsAmong false children).filter (·.1)).map (·.2)).filter hasCells

/-- The other rows of a table that have cells. -/
def otherRows (children : List Node) : List (List Node) :=
  (((rowsAmong false children).filter (!·.1)).map (·.2)).filter hasCells

/-- Each row with cells is of one of the two kinds. -/
theorem headRows_append_otherRows_perm (children : List Node) :
    (headRows children ++ otherRows children).Perm
      (((selectAmong isRow (fun _ => false) children).map (·.2)).filter hasCells) := by
  rw [headRows, otherRows, ← List.filter_append, ← List.map_append, ← map_rowsAmong false]
  exact ((List.filter_append_perm (·.1) (rowsAmong false children)).map (·.2)).filter hasCells

theorem isRow_of_isNamed_thead {tag : Tag} (h : tag.isNamed "thead" = true) : isRow tag = false := by
  rw [Tag.isNamed, beq_iff_eq] at h
  rw [isRow, Tag.isNamed, h]
  rfl

mutual

theorem filter_rowsIn_true : (n : Node) → (rowsIn true n).filter (!·.1) = []
  | .text _ _ => rfl
  | .element tag children => by
    have hchildren := filter_rowsAmong_true children
    rw [rowsIn, Bool.true_or]
    split <;> simp [hchildren]

/-- Under a head all rows stand under a head. -/
theorem filter_rowsAmong_true : (ns : List Node) → (rowsAmong true ns).filter (!·.1) = []
  | [] => rfl
  | n :: r => by
    rw [rowsAmong, List.filter_append, filter_rowsIn_true n, filter_rowsAmong_true r]
    rfl

end

mutual

theorem map_filter_rowsIn : (n : Node) → (∀ e ∈ elementsIn [n], e.1.isNamed "table" = false) →
    ((rowsIn false n).filter (!·.1)).map (·.2) =
      (select isRow (·.isOneOf ["thead", "table"]) n).map (·.2)
  | .text _ _, _ => rfl
  | .element tag children, h => by
    rw [elementsIn_element, elementsIn_nil, List.append_nil, List.forall_mem_cons] at h
    have hchildren := map_filter_rowsAmong children h.2
    have hstop : tag.isOneOf ["thead", "table"] = tag.isNamed "thead" := by
      simp [Tag.isOneOf, h.1]
    rw [rowsIn, select, hstop]
    dsimp only
    cases hhead : tag.isNamed "thead" with
    | true =>
      rw [isRow_of_isNamed_thead hhead]
      exact congrArg (List.map _) (filter_rowsAmong_true children)
    | false =>
      rw [bodyRows] at hchildren
      split <;> simp [hchildren]

/-- Without tables inside, the rows of the body are those under no head. -/
theorem map_filter_rowsAmong : (ns : List Node) →
    (∀ e ∈ elementsIn ns, e.1.isNamed "table" = false) →
    ((rowsAmong false ns).filter (!·.1)).map (·.2) = bodyRows ns
  | [], _ => rfl
  | n :: r, h => by
    rw [elementsIn_cons, List.forall_mem_append] at h
    rw [rowsAmong, List.filter_append, List.map_append, map_filter_rowsIn n h.1,
      map_filter_rowsAmong r h.2, bodyRows_cons]

end

/-! ### Lines of rows -/

/-- The line of a row. -/
def rowLine (hook : Option Hook) (row : List Node) : Text :=
  pipeRow (rowCells hook row).value

/-- Whether a text is a pipe table with the given lines of rows and a line of separators below the
first; without rows it is empty. -/
def IsPipeTable (rows : List Text) (t : Text) : Prop :=
  match rows with
  | [] => t = []
  | first :: rest => ∃ separators, t = closeLines (first :: separators :: rest) ∧
      ∀ l ∈ first :: separators :: rest, '\n' ∉ l

theorem closeLines_ne_nil (ls : List Text) : closeLines ls ≠ [] := by
  simp [closeLines]

theorem closeLines_inj {ls ks : List Text} (hls : ls ≠ []) (hks : ks ≠ [])
    (hcleanl : ∀ l ∈ ls, '\n' ∉ l) (hcleank : ∀ k ∈ ks, '\n' ∉ k)
    (h : closeLines ls = closeLines ks) : ls = ks := by
  have hunlines : unlines ls = unlines ks := List.append_cancel_right h
  rw [← lines_unlines hls hcleanl, hunlines, lines_unlines hks hcleank]

/-- A pipe table has one list of rows. -/
theorem IsPipeTable.unique {rows others : List Text} {t : Text} (h : IsPipeTable rows t)
    (hothers : IsPipeTable others t) : rows = others := by
  cases rows with
  | nil =>
    obtain rfl : t = [] := h
    cases others with
    | nil => rfl
    | cons first rest =>
      obtain ⟨separators, heq, -⟩ := hothers
      exact absurd heq.symm (closeLines_ne_nil _)
  | cons first rest =>
    obtain ⟨separators, rfl, hclean⟩ := h
    cases others with
    | nil => exact absurd hothers (closeLines_ne_nil _)
    | cons first' rest' =>
      obtain ⟨separators', heq, hclean'⟩ := hothers
      have hlines := closeLines_inj (by simp) (by simp) hclean hclean' heq
      obtain ⟨rfl, hrest⟩ := List.cons.inj hlines
      rw [(List.cons.inj hrest).2]

theorem newline_notMem_pipeRow {cells : List Text} (h : ∀ t ∈ cells, '\n' ∉ t) :
    '\n' ∉ pipeRow cells := by
  have hcells : ∀ c ∈ " | ".toList.intercalate cells, c ≠ '\n' :=
    forall_mem_intercalate (forall_mem_of_all (by decide)) fun t ht c hc =>
      ne_of_mem_of_not_mem hc (h t ht)
  intro hmem
  simp only [pipeRow, List.mem_append] at hmem
  rcases hmem with (hmem | hmem) | hmem
  · revert hmem
    decide
  · exact hcells _ hmem rfl
  · revert hmem
    decide

theorem newline_notMem_rowLine (row : List Node) : '\n' ∉ rowLine hook row := by
  refine newline_notMem_pipeRow fun t ht => ?_
  rw [rowCells, Report.value_mapM] at ht
  obtain ⟨cell, -, rfl⟩ := List.mem_map.mp ht
  intro hmem
  rw [Report.value_map, cellText] at hmem
  obtain ⟨c, -, hc⟩ := List.mem_map.mp hmem
  split at hc
  · cases hc
  · next hne => exact hne hc

theorem newline_notMem_separator (a : Option Alignment) : '\n' ∉ separator a := by
  rcases a with _ | _ | _ | _ <;> decide

/-- A row gives cells exactly if it has some. -/
theorem isEmpty_rowCells (row : List Node) : (!(rowCells hook row).value.isEmpty) = hasCells row := by
  simp [rowCells, hasCells]

/-- The rows that are written: the header row, with or without cells, and the rows of the body that
have cells. -/
def writtenRows (underHead : Bool) (children : List Node) : List (List Node) :=
  (headerRow? children).toList ++ (if underHead then [] else bodyRows children).filter hasCells

/-- A table is written row by row. -/
theorem isPipeTable_table (hook : Option Hook) (underHead : Bool) (children : List Node) :
    IsPipeTable ((writtenRows underHead children).map (rowLine hook))
      (table hook underHead children).value := by
  have hheader : ∃ separators, (headerCells hook children).value =
      ((headerRow? children).toList.map fun row => (rowCells hook row).value, separators) ∧
        ∀ t ∈ separators, '\n' ∉ t := by
    unfold headerCells
    cases headerRow? children with
    | none => exact ⟨[], rfl, by simp⟩
    | some row =>
      refine ⟨_, rfl, fun t ht => ?_⟩
      obtain ⟨a, -, rfl⟩ := List.mem_map.mp ht
      exact newline_notMem_separator a
  obtain ⟨separators, hheader, hclean⟩ := hheader
  have hrows : (headerRow? children).toList.map (fun row => (rowCells hook row).value) ++
      ((if underHead then [] else bodyRows children).map fun row => (rowCells hook row).value).filter
        (!List.isEmpty ·) =
      (writtenRows underHead children).map fun row => (rowCells hook row).value := by
    rw [writtenRows, List.map_append, List.filter_map]
    simp only [Function.comp_def, isEmpty_rowCells]
  rw [table, Report.value_bind, hheader]
  dsimp only
  rw [Report.value_bind, Report.value_mapM, hrows]
  cases writtenRows underHead children with
  | nil => rfl
  | cons first rest =>
    refine ⟨pipeRow (if separators.isEmpty then
      ((rowCells hook first).value.map fun _ => separator none) else separators), ?_, ?_⟩
    · simp only [List.map_cons, List.map_map]
      rfl
    · refine List.forall_mem_cons.mpr ⟨newline_notMem_rowLine first, List.forall_mem_cons.mpr
        ⟨newline_notMem_pipeRow fun t ht => ?_, fun l hl => ?_⟩⟩
      · split at ht
        · obtain ⟨_, -, rfl⟩ := List.mem_map.mp ht
          exact newline_notMem_separator none
        · exact hclean t ht
      · obtain ⟨row, -, rfl⟩ := List.mem_map.mp hl
        exact newline_notMem_rowLine row

theorem map_rowLine_writtenRows (underHead : Bool) {children : List Node}
    (htables : ∀ e ∈ elementsIn children, e.1.isNamed "table" = false) :
    (writtenRows underHead children).map (rowLine hook) =
      (headerRow? children).toList.map (rowLine hook) ++
        (if underHead then [] else otherRows children).map (rowLine hook) := by
  rw [writtenRows, otherRows, map_filter_rowsAmong children htables, List.map_append]
  cases underHead <;> rfl

/-- The rows of a table that have cells are those under a head and the others, each of them once. A
table without tables inside is refused for the word of an alignment, or it is written as a pipe
table. This table has a line for each row with cells, those under a head first, exactly if the
lines of the rows under a head are that of the header row; all other rows have their line, in
document order, unless the table itself stands under the head of another one. -/
theorem table_shows_rows_iff (hook : Option Hook) (underHead : Bool) {children : List Node}
    (htables : ∀ e ∈ elementsIn children, e.1.isNamed "table" = false) :
    (headRows children ++ otherRows children).Perm
        (((selectAmong isRow (fun _ => false) children).map (·.2)).filter hasCells) ∧
      ((∃ t, (table hook underHead children).answer = .ok t ∧
        IsPipeTable ((headerRow? children).toList.map (rowLine hook) ++
          (if underHead then [] else otherRows children).map (rowLine hook)) t ∧
        (IsPipeTable ((headRows children ++ otherRows children).map (rowLine hook)) t ↔
          (headRows children ++ if underHead then otherRows children else []).map (rowLine hook) =
            (headerRow? children).toList.map (rowLine hook))) ∨
        ∃ word, (table hook underHead children).answer = .error (.unknownAlignment word)) := by
  refine ⟨headRows_append_otherRows_perm children, ?_⟩
  have htable := isPipeTable_table hook underHead children
  rw [map_rowLine_writtenRows underHead htables] at htable
  have hfails : (table hook underHead children).FailsWithin _ := failsWithin_table underHead children
  obtain hanswer | ⟨f, ⟨word, rfl⟩, hanswer⟩ := hfails.answer
  · refine .inl ⟨_, hanswer, htable, ?_⟩
    have hiff : IsPipeTable ((headRows children ++ otherRows children).map (rowLine hook))
        (table hook underHead children).value ↔
          (headRows children ++ otherRows children).map (rowLine hook) =
            (headerRow? children).toList.map (rowLine hook) ++
              (if underHead then [] else otherRows children).map (rowLine hook) :=
      ⟨fun h => h.unique htable, fun h => h ▸ htable⟩
    rw [hiff]
    cases underHead <;> simp
  · exact .inr ⟨word, hanswer⟩

/-- A cell with a text. -/
def textCell (name text : String) : Node :=
  bare name [plain text.toList]

/-- A head with one row, and rows of which one has no cells. -/
def priceRows : List Node :=
  [bare "thead" [bare "tr" [textCell "th" "Item", textCell "th" "Price"]],
    bare "tbody" [bare "tr" [textCell "td" "Tea", textCell "td" "3"], bare "tr" []],
    bare "tr" [textCell "td" "Rye"]]

theorem table_shows_rows_prices :
    (∀ e ∈ elementsIn priceRows, e.1.isNamed "table" = false) ∧
      ∃ t, (table none false priceRows).answer = .ok t ∧
        IsPipeTable ["| Item | Price |".toList, "| Tea | 3 |".toList, "| Rye |".toList] t := by
  have htables : ∀ e ∈ elementsIn priceRows, e.1.isNamed "table" = false := by decide
  have hrows : (headRows priceRows ++ otherRows priceRows).map (rowLine none) =
      ["| Item | Price |".toList, "| Tea | 3 |".toList, "| Rye |".toList] := by decide
  refine ⟨htables, ?_⟩
  obtain ⟨-, ⟨t, hanswer, -, hiff⟩ | ⟨word, herror⟩⟩ := table_shows_rows_iff none false htables
  · exact ⟨t, hanswer, hrows ▸ hiff.mpr (by decide)⟩
  · have hok : (table none false priceRows).answer.isOk = true := by decide
    rw [herror] at hok
    cases hok

/-- A head with two rows. -/
def twoHeadRows : List Node :=
  [bare "thead" [bare "tr" [textCell "th" "A"], bare "tr" [textCell "th" "B"]],
    bare "tbody" [bare "tr" [textCell "td" "1"]]]

/-- The second row of a head is lost. -/
theorem table_row_lost :
    (∀ e ∈ elementsIn twoHeadRows, e.1.isNamed "table" = false) ∧
      (headRows twoHeadRows ++ otherRows twoHeadRows).map (rowLine none) =
        ["| A |".toList, "| B |".toList, "| 1 |".toList] ∧
      (table none false twoHeadRows).answer = .ok "| A |\n| --- |\n| 1 |\n\n".toList ∧
      ¬∃ t, (table none false twoHeadRows).answer = .ok t ∧
        IsPipeTable ["| A |".toList, "| B |".toList, "| 1 |".toList] t := by
  have hanswer : (table none false twoHeadRows).answer = .ok "| A |\n| --- |\n| 1 |\n\n".toList := by
    decide
  refine ⟨by decide, by decide, hanswer, ?_⟩
  rintro ⟨t, heq, hrows⟩
  obtain rfl : "| A |\n| --- |\n| 1 |\n\n".toList = t := Except.ok.inj (hanswer.symm.trans heq)
  have hwritten : IsPipeTable ["| A |".toList, "| 1 |".toList] "| A |\n| --- |\n| 1 |\n\n".toList :=
    ⟨"| --- |".toList, rfl, by decide⟩
  exact absurd (hrows.unique hwritten) (by decide)

end Markdown.FromHtml
