import Markdown.Proofs.BlockTrip
import Markdown.Proofs.WellFormed

/-!
# Tables on their way through HTML

A table keeps its rows and its alignments on the way through HTML, but the conversion writes a pipe in
a cell as it is, and not behind a backslash. So the row is cut there when it is read again
(`Canonical.answer_trip_table`): the table comes back as it was if no cell has a pipe, and only then.
-/

namespace Markdown.Canonical

open Document
open FromHtml
open Text

variable {t : Text} {cells headers : List Text} {alignments : List (Option Alignment)}
  {rows : List (List Text)}

/-- A table with texts of one line in its cells. Rows may be longer or shorter than the header. -/
structure IsCellTable (headers : List Text) (alignments : List (Option Alignment))
    (rows : List (List Text)) : Prop where
  /-- There is an alignment for each cell of the header. -/
  length_eq : alignments.length = headers.length
  /-- No row is empty, the header included. -/
  row_ne_nil : ∀ row ∈ headers :: rows, row ≠ []
  /-- The cells have texts of one line. -/
  isCellText : ∀ row ∈ headers :: rows, ∀ t ∈ row, IsCellText t

/-! ### Cutting cells -/

/-- No pipe is left where a text has been cut. -/
theorem pipe_notMem_of_mem_cut {u : Text} (h : u ∈ cut t) : '|' ∉ u := by
  obtain ⟨s, hs, rfl⟩ := List.mem_map.mp h
  intro hmem
  exact separator_notMem_of_mem_splitOn hs ((isInfix_trim s).subset hmem)

theorem IsCellText.cut_eq (h : IsCellText t) (hpipe : '|' ∉ t) : cut t = [t] := by
  rw [cut_of_not_mem hpipe, h.trim_eq]

theorem cells_pipeRow_of_isCellText (hne : cells ≠ []) (h : ∀ t ∈ cells, IsCellText t) :
    Row.cells (pipeRow cells) = cells.flatMap cut :=
  cells_pipeRow hne fun t ht => (h t ht).not_mem (by decide) (by decide)

/-- A row stays whole if no cell of it has a pipe, and only then. -/
theorem flatMap_cut_eq_self_iff (h : ∀ t ∈ cells, IsCellText t) :
    cells.flatMap cut = cells ↔ ∀ t ∈ cells, '|' ∉ t := by
  constructor
  · intro heq t ht
    rw [← heq] at ht
    obtain ⟨u, -, hcut⟩ := List.mem_flatMap.mp ht
    exact pipe_notMem_of_mem_cut hcut
  · intro hpipe
    calc cells.flatMap cut = cells.flatMap fun t => [t] :=
          List.flatMap_congr fun t ht => (h t ht).cut_eq (hpipe t ht)
      _ = cells := by simp

/-! ### The trip -/

/-- The lines of a table are split into one table, with its cells cut at their pipes. -/
theorem blocks_tableLines (structured : Bool) (h : IsCellTable headers alignments rows) :
    blocks structured (blockLines (.table headers alignments rows)) =
      pure [.table (headers.flatMap cut) alignments (rows.map (·.flatMap cut))] := by
  have hcells : ∀ row ∈ headers :: rows, Row.cells (pipeRow row) = row.flatMap cut := fun row hrow =>
    cells_pipeRow_of_isCellText (h.row_ne_nil row hrow) (h.isCellText row hrow)
  have halignments : alignments ≠ [] := by
    rintro rfl
    exact h.row_ne_nil headers List.mem_cons_self (List.length_eq_zero_iff.mp h.length_eq.symm)
  have hmatch := matchAt_pipeRows structured 0 headers rows (.inl rfl : IsGap []) halignments
  have hrows : rows.map (fun row => Row.cells (pipeRow row)) = rows.map (·.flatMap cut) :=
    List.map_congr_left fun row hrow => hcells row (List.mem_cons_of_mem headers hrow)
  rw [hcells headers List.mem_cons_self, hrows, List.append_nil] at hmatch
  have hline : allBlank (pipeRow headers) = false := rfl
  rw [blockLines]
  refine blocksFrom_of_matchAt hline hmatch fun k => ?_
  rw [List.drop_of_length_le (by simp), blocksFrom_nil]

/-- What comes back of a table. -/
theorem trip_table (shown read : Config) (h : IsCellTable headers alignments rows) :
    (trip shown read (.table headers alignments rows)).answer =
      .ok [.table (headers.flatMap cut) alignments (rows.map (·.flatMap cut))] := by
  have hheaders := h.isCellText headers List.mem_cons_self
  have hrows : ∀ row ∈ rows, ∀ t ∈ row, IsCellText t := fun row hrow =>
    h.isCellText row (List.mem_cons_of_mem headers hrow)
  have hhtml : ((shown.rendering Highlight.Registry.builtin .empty).html
      (.table headers alignments rows)).answer = .ok (tableNode headers alignments rows).write := by
    rw [Rendering.html, Rendering.blockHtml, tableHtml_eq alignments hheaders hrows]
    rfl
  have hnode : blockNode none .document (tableNode headers alignments rows) =
      pure (closeLines (blockLines (.table headers alignments rows))) :=
    blockNode_table rfl (h.row_ne_nil headers List.mem_cons_self) hheaders h.length_eq fun row hrow =>
      ⟨h.row_ne_nil row (List.mem_cons_of_mem headers hrow), hrows row hrow⟩
  have hframed : Framed (blockLines (.table headers alignments rows)) :=
    framed_table fun row hrow t ht => (h.isCellText row hrow t ht).isPrintable
  have hline : ∀ l ∈ blockLines (.table headers alignments rows), ∃ row, l = pipeRow row := by
    intro l hl
    rcases List.mem_cons.mp hl with rfl | hl
    · exact ⟨_, rfl⟩
    · rcases List.mem_cons.mp hl with rfl | hl
      · exact ⟨_, rfl⟩
      · obtain ⟨row, -, rfl⟩ := List.mem_map.mp hl
        exact ⟨row, rfl⟩
  have hsolid : AreSolid (blockLines (.table headers alignments rows)) := by
    refine hframed.areSolid fun l hl => ?_
    obtain ⟨row, rfl⟩ := hline l hl
    simp [pipeRow]
  have hkept : ∀ l ∈ blockLines (.table headers alignments rows), isKept l = true := by
    intro l hl
    obtain ⟨row, rfl⟩ := hline l hl
    exact isKept_pipeRow row
  rw [answer_trip_of_lines read hhtml (isWritten_tableNode alignments hheaders hrows) rfl hnode
    hframed hsolid hkept, blocks_tableLines read.structuredData h]
  rfl

/-- **Tables survive HTML if no cell has a pipe.** A table comes back as one table with the same
alignments, but each cell is cut at its pipes, and the parts are trimmed. So the same table comes back
exactly if there are no pipes. -/
theorem answer_trip_table (shown read : Config) (h : IsCellTable headers alignments rows) :
    (trip shown read (.table headers alignments rows)).answer =
        .ok [.table (headers.flatMap cut) alignments (rows.map (·.flatMap cut))] ∧
      ((trip shown read (.table headers alignments rows)).answer =
          .ok [.table headers alignments rows] ↔
        ∀ row ∈ headers :: rows, ∀ t ∈ row, '|' ∉ t) := by
  have hback := trip_table shown read h
  refine ⟨hback, ?_⟩
  rw [hback]
  constructor
  · intro heq row hrow t ht
    injection heq with heq
    injection heq with hblock
    injection hblock with hheaders _ hrows
    -- each row is one that has been cut
    have hcut : ∃ row' : List Text, row = row'.flatMap cut := by
      rcases List.mem_cons.mp hrow with rfl | hrow
      · exact ⟨_, hheaders.symm⟩
      · rw [← hrows] at hrow
        obtain ⟨row', -, rfl⟩ := List.mem_map.mp hrow
        exact ⟨row', rfl⟩
    obtain ⟨row', rfl⟩ := hcut
    obtain ⟨u, -, hmem⟩ := List.mem_flatMap.mp ht
    exact pipe_notMem_of_mem_cut hmem
  · intro hpipe
    have hwhole : ∀ row ∈ headers :: rows, row.flatMap cut = row := fun row hrow =>
      (flatMap_cut_eq_self_iff (h.isCellText row hrow)).mpr (hpipe row hrow)
    have hrows : rows.map (·.flatMap cut) = rows := by
      conv_rhs => rw [← List.map_id rows]
      exact List.map_congr_left fun row hrow => hwhole row (List.mem_cons_of_mem headers hrow)
    rw [hwhole headers List.mem_cons_self, hrows]

/-- The header of a table of figures. -/
def figureHeaders : List Text :=
  ["Item 1".toList, "Price".toList]

/-- Rows of figures, one of them short and one of them long. -/
def figureRows : List (List Text) :=
  [["Tea".toList], ["Rye bread".toList, "3".toList, "sold out".toList]]

theorem answer_trip_table_figures :
    IsCellTable figureHeaders [some .right, none] figureRows ∧
      (∀ row ∈ figureHeaders :: figureRows, ∀ t ∈ row, '|' ∉ t) ∧
      (trip {} {} (.table figureHeaders [some .right, none] figureRows)).answer =
        .ok [.table figureHeaders [some .right, none] figureRows] := by
  have htable : IsCellTable figureHeaders [some .right, none] figureRows :=
    ⟨rfl, by decide, by decide⟩
  have hpipe : ∀ row ∈ figureHeaders :: figureRows, ∀ t ∈ row, '|' ∉ t := by decide
  obtain ⟨-, hself⟩ := answer_trip_table {} {} htable
  exact ⟨htable, hpipe, hself.mpr hpipe⟩

/-- A pipe in a cell cuts it in two. -/
theorem trip_table_changed :
    IsCellTable ["a | b".toList] [none] [] ∧
      Row.cells "| a \\| b |".toList = ["a | b".toList] ∧
      (trip {} {} (.table ["a | b".toList] [none] [])).answer ≠
        .ok [.table ["a | b".toList] [none] []] := by
  have htable : IsCellTable ["a | b".toList] [none] [] :=
    ⟨rfl, by decide, by decide⟩
  refine ⟨htable, by decide, ?_⟩
  rw [trip_table {} {} htable]
  intro heq
  injection heq with heq
  injection heq with hblock
  injection hblock with hheaders
  exact absurd hheaders (by decide)

end Markdown.Canonical
