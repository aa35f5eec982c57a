import Markdown.Proofs.Ambient
import Markdown.Proofs.Digits

/-!
# The inline texts of blocks

The texts of a block that are rendered by the inline rules are cut out of its lines: they have no
longer runs of digits than the lines and, put together, no more characters. What holds of all texts of
this kind holds of the texts of a document at all depths.
-/

namespace Markdown

open Text

/-- The texts of a block that are inline text; those of blocks inside it are not among them. -/
def Block.texts : Block → List Text
  | .heading _ content => [content]
  | .paragraph content => [content]
  | .list _ _ items => items.map Item.content
  | .table headers _ rows => headers ++ rows.flatten
  | .definitions items => items.flatMap fun d => d.term :: d.meanings
  | _ => []

/-- A text with at most `n` digits in a row and fewer than `size` characters. -/
structure Text.Fits (n size : Nat) (t : Text) : Prop where
  /-- There are no longer runs of digits. -/
  runs : RunsWithin n t
  /-- There are fewer characters. -/
  length : t.length < size

/-- Lines with at most `n` digits in a row and at most `size` characters, line ends included. -/
structure LinesFit (n size : Nat) (lines : List Text) : Prop where
  /-- There are no longer runs of digits. -/
  runs : ∀ l ∈ lines, RunsWithin n l
  /-- There are no more characters. -/
  size_le : Quote.size lines ≤ size

variable {n size : Nat}

/-! ### Cutting out of a line -/

namespace Text

variable {s t : Text}

theorem Fits.of_isInfix (h : t.Fits n size) (hs : s <:+: t) : s.Fits n size :=
  ⟨h.runs.of_isInfix hs, Nat.lt_of_le_of_lt hs.length_le h.length⟩

theorem isInfix_trimStart (t : Text) : trimStart t <:+: t :=
  (List.dropWhile_suffix isBlank).isInfix

theorem isInfix_trimEnd (t : Text) : trimEnd t <:+: t := by
  have hsuffix := List.dropWhile_suffix isBlank (l := t.reverse)
  have hprefix := List.reverse_prefix.mpr hsuffix
  rw [List.reverse_reverse] at hprefix
  exact hprefix.isInfix

theorem isInfix_trim (t : Text) : trim t <:+: t :=
  (isInfix_trimEnd (trimStart t)).trans (isInfix_trimStart t)

end Text

namespace Line

variable {line : Text}

theorem isInfix_body? {t b : Text} (h : body? t = some b) : b <:+: t := by
  unfold body? at h
  split at h
  · obtain rfl := Option.some.inj h
    exact List.infix_refl t
  · obtain rfl := Option.some.inj h
    exact (List.takeWhile_prefix _).isInfix
  · cases h

theorem isInfix_spaced? {t b : Text} (h : spaced? t = some b) : b <:+: t := by
  unfold spaced? at h
  split at h
  · next c r =>
    split at h
    · exact ((isInfix_body? h).trans (isInfix_trimStart r)).trans (List.suffix_cons c r).isInfix
    · cases h
  · cases h

/-- The digits of a marker and its content are parts of the line. -/
theorem isInfix_marker? {m : Marker} (h : marker? line = some m) :
    m.content <:+: line ∧ ∀ ds ∈ m.digits, ds <:+: line ∧ ∀ d ∈ ds, isDigit d = true := by
  have hline := isInfix_trimStart line
  unfold marker? at h
  dsimp only at h
  split at h
  · split at h
    · next c r hcr =>
      rw [hcr] at hline
      split at h
      · obtain ⟨content, hcontent, rfl⟩ := Option.map_eq_some_iff.mp h
        refine ⟨((isInfix_spaced? hcontent).trans (List.suffix_cons c r).isInfix).trans hline, ?_⟩
        intro ds hds
        cases hds
      · cases h
    · cases h
  · split at h
    · next c r hcr =>
      have hrest : r <:+: trimStart line := by
        have hdrop := List.drop_suffix ((trimStart line).takeWhile isDigit).length (trimStart line)
        rw [hcr] at hdrop
        exact (List.suffix_cons c r).isInfix.trans hdrop.isInfix
      split at h
      · obtain ⟨content, hcontent, rfl⟩ := Option.map_eq_some_iff.mp h
        refine ⟨((isInfix_spaced? hcontent).trans hrest).trans hline, ?_⟩
        intro ds hds
        obtain rfl := Option.some.inj hds
        exact ⟨(List.takeWhile_prefix isDigit).isInfix.trans hline, fun d hd => of_mem_takeWhile hd⟩
      · cases h
    · cases h

theorem isInfix_taskBox? {content t : Text} {ticked : Bool}
    (h : taskBox? content = some (ticked, t)) : t <:+: content := by
  unfold taskBox? at h
  split at h
  · next c r =>
    split at h
    · split at h
      · obtain ⟨-, rfl⟩ := Prod.mk.inj (Option.some.inj h)
        exact List.nil_infix
      · obtain ⟨text, htext, heq⟩ := Option.map_eq_some_iff.mp h
        obtain ⟨-, rfl⟩ := Prod.mk.inj heq
        exact (isInfix_spaced? htext).trans (List.suffix_append ['[', c, ']'] r).isInfix
    · cases h
  · cases h

theorem isInfix_hashes? {behind : Text} {k : Nat} (h : hashes? line = some (k, behind)) :
    behind <:+: line := by
  unfold hashes? at h
  dsimp only at h
  split at h
  · next c r hcr =>
    split at h
    · obtain ⟨-, rfl⟩ := Prod.mk.inj (Option.some.inj h)
      rw [← hcr]
      exact (List.drop_suffix _ line).isInfix
    · cases h
  · cases h

end Line

theorem Listing.isInfix_item {line : Text} {m : Line.Marker} (h : Line.marker? line = some m) :
    (Listing.item m).content <:+: line := by
  have hcontent := (isInfix_trim m.content).trans (Line.isInfix_marker? h).1
  unfold Listing.item
  dsimp only
  split
  · exact hcontent
  · split
    · next ticked text hbox => exact (Line.isInfix_taskBox? hbox).trans hcontent
    · exact hcontent

/-- The cells of a row are parts of it, but for backslashes in front of pipes. -/
theorem Row.fits_cellsFrom {current t : Text} (h : Fits n size (current.reverse ++ t)) :
    ∀ cell ∈ Row.cellsFrom current t, cell.Fits n size := by
  fun_induction Row.cellsFrom current t with
  | case1 current =>
    intro cell hcell
    obtain rfl := List.mem_singleton.mp hcell
    rw [List.append_nil] at h
    exact h.of_isInfix (isInfix_trim _)
  | case2 current r ih =>
    refine ih ⟨?_, ?_⟩
    · have hruns := h.runs
      rw [runsWithin_append_cons_iff (by decide)] at hruns
      rw [List.reverse_cons, List.append_assoc, List.singleton_append,
        runsWithin_append_cons_iff (by decide)]
      exact ⟨hruns.1, hruns.2.tail⟩
    · have hlength := h.length
      simp only [List.length_append, List.length_reverse, List.length_cons] at hlength ⊢
      omega
  | case3 current r ih =>
    intro cell hcell
    rcases List.mem_cons.mp hcell with rfl | hcell
    · exact h.of_isInfix ((isInfix_trim _).trans (List.prefix_append _ _).isInfix)
    · exact ih (h.of_isInfix ⟨current.reverse ++ ['|'], [], by simp⟩) cell hcell
  | case4 current c r _ _ ih => exact ih (by simpa using h)

theorem Row.fits_cells {line : Text} (h : line.Fits n size) :
    ∀ cell ∈ Row.cells line, cell.Fits n size := by
  have hopening : ∀ t : Text, Row.dropOpening t <:+: t := by
    intro t
    unfold Row.dropOpening
    split
    · exact (List.suffix_cons _ _).isInfix
    · exact List.infix_refl t
  have hclosing : ∀ t : Text, Row.dropClosing t <:+: t := by
    intro t
    unfold Row.dropClosing
    split
    · exact (List.dropLast_prefix t).isInfix
    · exact List.infix_refl t
  refine Row.fits_cellsFrom (h.of_isInfix ?_)
  exact ((hclosing _).trans (hopening _)).trans (isInfix_trim line)

/-! ### Lines -/

theorem Quote.size_append (ks ls : List Text) :
    Quote.size (ks ++ ls) = Quote.size ks + Quote.size ls := by
  induction ks with
  | nil => simp [Quote.size]
  | cons k ks ih =>
    rw [List.cons_append, Quote.size_cons, Quote.size_cons, ih]
    omega

theorem length_unlines {ls : List Text} (hne : ls ≠ []) :
    (unlines ls).length + 1 = Quote.size ls := by
  induction ls with
  | nil => exact absurd rfl hne
  | cons l ls ih =>
    by_cases hls : ls = []
    · subst hls
      simp [unlines, List.intercalate, Quote.size]
    · have hrest := ih hls
      rw [unlines_cons l hls, Quote.size_cons, List.length_append, List.length_cons]
      omega

theorem length_le_size (lines : List Text) : lines.length ≤ Quote.size lines := by
  induction lines with
  | nil => exact Nat.le_refl 0
  | cons line rest ih =>
    rw [List.length_cons, Quote.size_cons]
    omega

theorem size_lines (t : Text) : Quote.size (Text.lines t) = t.length + 1 := by
  rw [← length_unlines (lines_ne_nil t), unlines_lines]

theorem Quote.size_le_of_sublist {ks ls : List Text} (h : ks.Sublist ls) :
    Quote.size ks ≤ Quote.size ls := by
  induction h with
  | slnil => exact Nat.le_refl _
  | cons l _ ih =>
    rw [Quote.size_cons]
    omega
  | cons_cons l _ ih =>
    rw [Quote.size_cons, Quote.size_cons]
    omega

/-- A text made of some of the lines of another one. -/
theorem length_unlines_le {ls : List Text} {t : Text} (h : ls.Sublist (Text.lines t)) :
    (unlines ls).length ≤ t.length := by
  by_cases hne : ls = []
  · subst hne
    exact Nat.zero_le _
  · have hlength := length_unlines hne
    have hsize := Quote.size_le_of_sublist h
    rw [size_lines] at hsize
    omega

theorem Quote.isInfix_strip? {line t : Text} (h : strip? line = some t) : t <:+: line := by
  have hline := isInfix_trimStart line
  unfold strip? at h
  split at h
  · next r hr =>
    obtain rfl := Option.some.inj h
    rw [hr] at hline
    exact (List.suffix_append ['>', ' '] _).isInfix.trans hline
  · next r _ hr =>
    obtain rfl := Option.some.inj h
    rw [hr] at hline
    exact (List.suffix_cons '>' _).isInfix.trans hline
  · cases h

/-- The texts of quoted lines are parts of these lines. -/
theorem Quote.exists_isInfix_of_mem_body {lines : List Text} {t : Text} (h : t ∈ body lines) :
    ∃ line ∈ lines, t <:+: line := by
  induction lines with
  | nil => cases h
  | cons line rest ih =>
    rw [body] at h
    split at h
    · next text htext =>
      rcases List.mem_cons.mp h with rfl | h
      · exact ⟨line, List.mem_cons_self, isInfix_strip? htext⟩
      · obtain ⟨k, hk, hisInfix⟩ := ih h
        exact ⟨k, List.mem_cons_of_mem line hk, hisInfix⟩
    · cases h

namespace LinesFit

variable {line : Text} {lines rest : List Text}

theorem of_text {t : Text} (h : t.Fits n size) : LinesFit n size (Text.lines t) := by
  refine ⟨runsWithin_lines_iff.mpr h.runs, ?_⟩
  rw [size_lines]
  exact h.length

theorem tail (h : LinesFit n size (line :: rest)) : LinesFit n size rest := by
  refine ⟨fun l hl => h.runs l (List.mem_cons_of_mem line hl), ?_⟩
  have hsize := h.size_le
  rw [Quote.size_cons] at hsize
  omega

theorem drop (h : LinesFit n size lines) (k : Nat) : LinesFit n size (lines.drop k) :=
  ⟨fun l hl => h.runs l (List.mem_of_mem_drop hl), (Quote.size_drop_le k lines).trans h.size_le⟩

/-- Lines at the start of others are one text of the same kind. -/
theorem fits_unlines {ls : List Text} (h : LinesFit n size lines) (hls : ls <+: lines)
    (hne : ls ≠ []) : Fits n size (unlines ls) := by
  obtain ⟨behind, rfl⟩ := hls
  have hsize := h.size_le
  have hlength := length_unlines hne
  rw [Quote.size_append] at hsize
  exact ⟨runsWithin_unlines_iff.mpr fun l hl => h.runs l (List.mem_append_left _ hl), by omega⟩

theorem fits (h : LinesFit n size lines) {l : Text} (hl : l ∈ lines) : l.Fits n size := by
  obtain ⟨before, behind, rfl⟩ := List.append_of_mem hl
  have hsize := h.size_le
  rw [Quote.size_append, Quote.size_cons] at hsize
  exact ⟨h.runs l hl, by omega⟩

theorem strip? {t : Text} (h : RunsWithin n line) (ht : Quote.strip? line = some t) :
    RunsWithin n t :=
  h.of_isInfix (Quote.isInfix_strip? ht)

theorem runs_body (h : ∀ l ∈ lines, RunsWithin n l) :
    ∀ l ∈ Quote.body lines, RunsWithin n l := by
  intro l hl
  obtain ⟨k, hk, hisInfix⟩ := Quote.exists_isInfix_of_mem_body hl
  exact (h k hk).of_isInfix hisInfix

/-- The texts of quoted lines. -/
theorem quoted {t : Text} (h : LinesFit n size (line :: rest)) (ht : Quote.strip? line = some t) :
    LinesFit n size (t :: Quote.body rest) := by
  obtain ⟨hline, hrest⟩ := List.forall_mem_cons.mp h.runs
  refine ⟨List.forall_mem_cons.mpr ⟨strip? hline ht, runs_body hrest⟩, ?_⟩
  have hlt := Quote.length_lt_of_strip? ht
  have hbody := Quote.size_body_le rest
  have hsize := h.size_le
  rw [Quote.size_cons] at hsize ⊢
  omega

end LinesFit

/-! ### Blocks -/

theorem Glossary.fits_meanings {lines : List Text} (h : ∀ l ∈ lines, l.Fits n size) :
    ∀ m ∈ meanings lines, m.Fits n size := by
  induction lines with
  | nil => simp [meanings]
  | cons l r ih =>
    obtain ⟨hl, hr⟩ := List.forall_mem_cons.mp h
    rw [meanings]
    split
    · next m hm =>
      refine List.forall_mem_cons.mpr ⟨hl.of_isInfix ?_, ih hr⟩
      unfold meaning? at hm
      split at hm
      · next text =>
        obtain rfl := Option.some.inj hm
        exact (isInfix_trim text).trans (List.suffix_append [':', ' '] text).isInfix
      · cases hm
    · simp

theorem Glossary.fits_entries {lines : List Text} (h : ∀ l ∈ lines, l.Fits n size) :
    ∀ d ∈ (entries lines).1, d.term.Fits n size ∧ ∀ m ∈ d.meanings, m.Fits n size := by
  fun_induction entries lines with
  | case1 => simp
  | case2 line rest _ ms more ih =>
    obtain ⟨hline, hrest⟩ := List.forall_mem_cons.mp h
    intro d hd
    rcases List.mem_cons.mp hd with rfl | hd
    · exact ⟨hline.of_isInfix (isInfix_trim line), fits_meanings hrest⟩
    · exact ih (fun l hl => hrest l (List.mem_of_mem_drop hl)) d hd
  | case3 line rest _ _ blanks _ more ih =>
    obtain ⟨-, hrest⟩ := List.forall_mem_cons.mp h
    exact ih fun l hl => hrest l (List.mem_of_mem_drop hl)
  | case4 => simp
  | case5 => simp

theorem Paragraph.continuation_prefix (number : Nat) (lines : List Text) :
    (continuation number lines).value.1 <+: lines := by
  induction lines generalizing number with
  | nil => simp [continuation]
  | cons line rest ih =>
    rw [continuation]
    split
    · simp
    · rw [Report.value_bind]
      split
      · simp
      · simpa using ih (number + 1)

namespace Listing

/-- The text of an entry leaves room for more lines. -/
def LeavesRoom (n size : Nat) (lines : List Text) (i : Item) : Prop :=
  RunsWithin n i.content ∧ i.content.length + Quote.size lines < size

variable {line : Text} {lines rest : List Text}

theorem LeavesRoom.tail {i : Item} (h : LeavesRoom n size (line :: rest) i) :
    LeavesRoom n size rest i := by
  refine ⟨h.1, ?_⟩
  have hlength := h.2
  rw [Quote.size_cons] at hlength
  omega

theorem LeavesRoom.drop {i : Item} (h : LeavesRoom n size lines i) (k : Nat) :
    LeavesRoom n size (lines.drop k) i := by
  have hle := Quote.size_drop_le k lines
  exact ⟨h.1, Nat.lt_of_le_of_lt (Nat.add_le_add_left hle _) h.2⟩

theorem LeavesRoom.addChild {i : Item} (h : LeavesRoom n size lines i) (b : Block) :
    LeavesRoom n size lines (i.addChild b) := by
  cases i
  exact h

theorem leavesRoom_item {m : Line.Marker} (hm : Line.marker? line = some m)
    (h : LinesFit n size (line :: rest)) : LeavesRoom n size rest (item m) := by
  have hisInfix := isInfix_item hm
  have hsize := h.size_le
  have hle := hisInfix.length_le
  rw [Quote.size_cons] at hsize
  exact ⟨(h.runs line List.mem_cons_self).of_isInfix hisInfix, by omega⟩

theorem LeavesRoom.addLine {i : Item} (h : LeavesRoom n size (line :: rest) i)
    (hline : RunsWithin n line) : LeavesRoom n size rest (i.addLine (trim line)) := by
  obtain ⟨content, checked, children⟩ := i
  have hlength : content.length + Quote.size (line :: rest) < size := h.2
  have hle := (isInfix_trim line).length_le
  rw [Quote.size_cons] at hlength
  refine ⟨(runsWithin_append_cons_iff (by decide)).mpr ⟨h.1, hline.of_isInfix (isInfix_trim line)⟩, ?_⟩
  show (content ++ '\n' :: trim line).length + Quote.size rest < size
  rw [List.length_append, List.length_cons]
  omega

theorem forall_mem_onLatest {p q : Item → Prop} {f : Item → Item} {items : List Item}
    (h : ∀ i ∈ items, p i) (hf : ∀ i, p i → q (f i)) (hpq : ∀ i, p i → q i) :
    ∀ i ∈ onLatest f items, q i := by
  cases items with
  | nil => simp [onLatest]
  | cons i r =>
    obtain ⟨hi, hr⟩ := List.forall_mem_cons.mp h
    exact List.forall_mem_cons.mpr ⟨hf i hi, fun j hj => hpq j (hr j hj)⟩

/-- The texts of the entries of a list are put together from its lines. -/
theorem fits_collect (base : Nat) (ordered : Bool) {done : List Item} {lines : List Text}
    (h : LinesFit n size lines) (hdone : ∀ i ∈ done, LeavesRoom n size lines i) :
    ∀ i ∈ (collect base ordered done lines).value.items, i.content.Fits n size := by
  induction hk : lines.length using Nat.strongRecOn generalizing base ordered done lines with
  | ind k ih =>
    have hend : ∀ i ∈ done.reverse, i.content.Fits n size := fun i hi =>
      have hroom := hdone i (List.mem_reverse.mp hi)
      ⟨hroom.1, Nat.lt_of_le_of_lt (Nat.le_add_right _ _) hroom.2⟩
    cases lines with
    | nil => simpa using hend
    | cons line rest =>
      simp only [List.length_cons] at hk
      have hline := h.runs line List.mem_cons_self
      rw [collect_cons]
      split
      · exact hend
      · next blanks _ =>
        exact ih _ (by simp only [List.length_drop]; omega) base ordered (h.tail.drop blanks)
          (fun i hi => (hdone i hi).tail.drop blanks) rfl
      · exact ih _ (by simp only [List.length_drop]; omega) base ordered (h.tail.drop _)
          (forall_mem_onLatest hdone (fun i hi => (hi.tail.drop _).addChild _)
            fun i hi => hi.tail.drop _) rfl
      · next m hturn =>
        have hm := leavesRoom_item (marker?_of_turn_entry hturn).1 h
        exact ih rest.length (by omega) base ordered h.tail
          (List.forall_mem_cons.mpr ⟨hm, fun i hi => (hdone i hi).tail⟩) rfl
      · exact ih rest.length (by omega) base ordered h.tail
          (forall_mem_onLatest hdone (fun i hi => hi.addLine hline) fun i hi => hi.tail) rfl

end Listing

/-- What is to hold of a block so that it can be rendered: it is a block of a document, and `p` holds
of its inline texts. -/
structure Block.IsRenderable (p : Text → Prop) (b : Block) : Prop where
  /-- It is a block. -/
  native : ∀ value, b ≠ .foreign value
  /-- If it is a quote without blocks, it is blank. -/
  filled : b.IsFilled
  /-- Its inline texts have the property. -/
  texts : ∀ t ∈ b.texts, p t

namespace Document

theorem isRenderable_leaf [Yaml.Reader] {s : Shape} (hs : s ≠ .list) {number : Nat}
    {line : Text} {rest : List Text} {m : Match} (h : LinesFit n size (line :: rest))
    (hm : s.recogniser number line rest = some m) : m.block.IsRenderable (Text.Fits n size) := by
  have hline : line.Fits n size := h.fits List.mem_cons_self
  have hrest : ∀ l ∈ rest, l.Fits n size := fun l hl => h.fits (List.mem_cons_of_mem line hl)
  unfold Shape.recogniser at hm
  cases s with
  | fencedCode =>
    obtain ⟨-, rfl⟩ := Fence.recognise_eq_some hm
    exact ⟨by simp, trivial, by simp [Block.texts]⟩
  | hashHeading =>
    obtain ⟨k, behind, body, hhashes, hbody, -, rfl⟩ := Heading.recognise_eq_some hm
    have hcontent : Text.trim body <:+: line :=
      (((isInfix_trim body).trans (Line.isInfix_body? hbody)).trans (isInfix_trimStart behind)).trans
        (Line.isInfix_hashes? hhashes)
    exact ⟨by simp, trivial, by simpa [Block.texts] using hline.of_isInfix hcontent⟩
  | underlinedHeading =>
    obtain ⟨next, more, level, -, -, -, rfl⟩ := Heading.recogniseUnderlined_eq_some hm
    exact ⟨by simp, trivial, by simpa [Block.texts] using hline.of_isInfix (isInfix_trim line)⟩
  | rule =>
    obtain ⟨-, rfl⟩ := Heading.recogniseRule_eq_some hm
    exact ⟨by simp, trivial, by simp [Block.texts]⟩
  | quote => cases hm
  | table =>
    obtain ⟨separator, more, alignments, rfl, -, -, rfl⟩ := Table.recognise_eq_some hm
    refine ⟨by simp, trivial, fun t ht => ?_⟩
    rcases List.mem_append.mp ht with ht | ht
    · exact Row.fits_cells hline t ht
    · obtain ⟨cells, hcells, ht⟩ := List.mem_flatten.mp ht
      obtain ⟨row, hrow, rfl⟩ := List.mem_map.mp hcells
      have hmem := (List.takeWhile_prefix Table.isRow).subset hrow
      exact Row.fits_cells (hrest row (List.mem_cons_of_mem separator hmem)) t ht
  | glossary =>
    obtain ⟨-, rfl⟩ := Glossary.recognise_eq_some hm
    refine ⟨by simp, trivial, fun t ht => ?_⟩
    obtain ⟨d, hd, ht⟩ := List.mem_flatMap.mp ht
    obtain ⟨hterm, hmeanings⟩ :=
      Glossary.fits_entries (List.forall_mem_cons.mpr ⟨hline, hrest⟩) d hd
    rcases List.mem_cons.mp ht with rfl | ht
    · exact hterm
    · exact hmeanings t ht
  | list => exact absurd rfl hs
  | indentedCode =>
    obtain ⟨code, -, -, rfl⟩ := Fence.recogniseIndented_eq_some hm
    exact ⟨by simp, trivial, by simp [Block.texts]⟩
  | json =>
    obtain ⟨k, -, -, rfl⟩ := Data.recogniseJson_eq_some hm
    exact ⟨by simp, trivial, by simp [Block.texts]⟩
  | yaml =>
    obtain ⟨-, -, notes, rfl, -⟩ := Data.recogniseYaml_eq_some hm
    exact ⟨by simp, trivial, by simp [Block.texts]⟩

/-- The blocks of lines can be rendered, and their texts are as short as the lines. -/
theorem yields_isRenderable [Yaml.Reader] (structured : Bool) (n size : Nat) :
    Yields structured (LinesFit n size) (Block.IsRenderable (Text.Fits n size)) where
  tail _ _ h := h.tail
  quoted _ _ _ h ht := h.quoted ht
  leaf s number line rest m hs _ h hm := isRenderable_leaf hs h hm
  paragraph number line rest h := by
    refine ⟨by simp [Paragraph.startingAt], trivial, fun t ht => ?_⟩
    obtain rfl := List.mem_singleton.mp ht
    have hprefix := Paragraph.continuation_prefix (number + 1) rest
    exact h.fits_unlines ((List.prefix_cons_inj line).mpr hprefix) (by simp)
  list base line rest m hm h := by
    refine ⟨by simp [Listing.opened, Listing.list], trivial, fun t ht => ?_⟩
    obtain ⟨i, hi, rfl⟩ := List.mem_map.mp ht
    exact Listing.fits_collect base m.ordered h.tail (by simpa using Listing.leavesRoom_item hm h) i hi
  quote lines hne _ :=
    ⟨by simp, (yields_isFilled structured).quote lines hne trivial, by simp [Block.texts]⟩

end Document

end Markdown
