import Markdown.Proofs.InlineDigits
import Markdown.Proofs.InlineTexts
import Markdown.Proofs.Levels
import Markdown.Proofs.Plain
import Mathlib.Data.List.DropRight

/-!
# Well-formed blocks

Blocks made by hand may have any content. `Block.IsWellFormed` says what holds of a block that a text is
split into; renderers and converters rely on it. `Document.every_isWellFormed_of_tokenize` shows it of
all blocks of a text that has an answer, at every depth of nesting. That the lines of a paragraph
are not blank and that a list has an entry are facts about where splitting tries a recogniser; that
unfenced YAML has been read is one about texts with an answer.
-/

namespace Markdown

/-! ### What holds of blocks -/

/-- What holds of an entry of a list: it holds lists only, and only bullets have boxes. -/
def Item.IsWellFormed (ordered : Bool) (i : Item) : Prop :=
  (∀ b ∈ i.children, ∃ inner start items, b = .list inner start items) ∧
    (ordered = true → i.checked = none)

/-- What holds of a block that a text is split into. -/
def Block.IsWellFormed (structured : Bool) : Block → Prop
  | .heading level content => (1 ≤ level ∧ level ≤ 6) ∧ content ≠ [] ∧ Text.trim content = content
  | .paragraph content => ∀ l ∈ Text.lines content, Text.allBlank l = false
  | .code language content detected => detected = true →
    language = "json".toList ∧ (Json.read? content).isSome = true ∨
    language = "yaml".toList ∧ 2 ≤ (Text.lines content).countP (fun l => !Text.allBlank l) ∧
      Yaml.load content = .collection
  | .list ordered start items => items ≠ [] ∧ (∀ i ∈ items, i.IsWellFormed ordered) ∧
    (ordered = false → start = 1)
  | .table headers alignments rows => headers ≠ [] ∧ alignments ≠ [] ∧ ∀ row ∈ rows, row ≠ []
  | .quote content children =>
    (Document.blocks structured (Text.lines content)).answer = .ok children
  | .rule => True
  | .definitions items => items ≠ [] ∧ ∀ d ∈ items, d.term ≠ [] ∧ d.meanings ≠ []
  | .footnote _ _ => False
  | .foreign _ => False

/-! ### Trimming and lines -/

namespace Text

variable {t : Text}

theorem trimStart_eq_nil_iff : trimStart t = [] ↔ allBlank t = true := by
  rw [trimStart, trimStartBy, List.dropWhile_eq_nil_iff, allBlank, List.all_eq_true]

theorem trim_ne_nil (h : allBlank t = false) : trim t ≠ [] := by
  cases hstart : trimStart t with
  | nil =>
    rw [trimStart_eq_nil_iff, h] at hstart
    cases hstart
  | cons c r =>
    obtain ⟨s, hs⟩ := Canonical.trim_cons (not_of_dropWhile_eq_cons hstart) r
    rw [trim, trimStart_cons (not_of_dropWhile_eq_cons hstart)] at hs
    rw [trim, hstart, hs]
    exact List.cons_ne_nil c s

theorem trimEnd_trimEnd (t : Text) : trimEnd (trimEnd t) = trimEnd t :=
  List.rdropWhile_idempotent isBlank t

/-- A trimmed text has nothing left to trim. -/
theorem trim_trim (t : Text) : trim (trim t) = trim t := by
  cases hstart : trimStart t with
  | nil =>
    have hnil : trim t = [] := by rw [trim, hstart]; rfl
    rw [hnil]
    rfl
  | cons c r =>
    have hc := not_of_dropWhile_eq_cons hstart
    obtain ⟨s, hs⟩ := Canonical.trim_cons hc r
    rw [trim, trimStart_cons hc] at hs
    have htrim : trim t = trimEnd (c :: r) := by rw [trim, hstart]
    rw [htrim, trim, hs, trimStart_cons hc, ← hs, trimEnd_trimEnd]

/-- A text is its first blanks and the text without them. -/
theorem exists_eq_trimStart (t : Text) : ∃ a, allBlank a = true ∧ t = a ++ trimStart t :=
  ⟨t.takeWhile isBlank, List.all_eq_true.mpr fun _ hc => of_mem_takeWhile hc,
    (List.takeWhile_append_dropWhile (p := isBlank) (l := t)).symm⟩

/-- Trimming takes blanks off both ends. -/
theorem exists_eq_trim (t : Text) :
    ∃ a b, allBlank a = true ∧ allBlank b = true ∧ t = a ++ (trim t ++ b) := by
  obtain ⟨a, ha, ht⟩ := exists_eq_trimStart t
  have hend : trimStart t = trim t ++ ((trimStart t).reverse.takeWhile isBlank).reverse := by
    rw [trim, trimEnd, trimEndBy, ← List.reverse_append, List.takeWhile_append_dropWhile,
      List.reverse_reverse]
  refine ⟨a, ((trimStart t).reverse.takeWhile isBlank).reverse, ha, ?_, ?_⟩
  · exact List.all_eq_true.mpr fun c hc => of_mem_takeWhile (List.mem_reverse.mp hc)
  · rw [← hend]
    exact ht

/-- Lines hold no line feeds. -/
theorem newline_notMem_of_mem_lines {l : Text} (h : l ∈ lines t) : '\n' ∉ l :=
  separator_notMem_of_mem_splitOn h

end Text

/-- Lines without line feeds. -/
def AreLines (ls : List Text) : Prop :=
  ∀ l ∈ ls, '\n' ∉ l

namespace AreLines

variable {line : Text} {lines rest : List Text}

theorem tail (h : AreLines (line :: rest)) : AreLines rest :=
  fun l hl => h l (List.mem_cons_of_mem line hl)

theorem lines_unlines (h : AreLines lines) (hne : lines ≠ []) :
    Text.lines (Text.unlines lines) = lines :=
  Text.lines_unlines hne h

theorem of_prefix {ls : List Text} (h : AreLines (line :: rest)) (hls : ls <+: rest) :
    AreLines (line :: ls) :=
  List.forall_mem_cons.mpr ⟨h line List.mem_cons_self, fun l hl => h.tail l (hls.subset hl)⟩

/-- The texts of quoted lines. -/
theorem quoted {t : Text} (h : AreLines (line :: rest)) (ht : Quote.strip? line = some t) :
    AreLines (t :: Quote.body rest) := by
  refine List.forall_mem_cons.mpr ⟨fun hmem => ?_, fun l hl hmem => ?_⟩
  · exact h line List.mem_cons_self ((Quote.isInfix_strip? ht).subset hmem)
  · obtain ⟨k, hk, hisInfix⟩ := Quote.exists_isInfix_of_mem_body hl
    exact h.tail k hk (hisInfix.subset hmem)

end AreLines

/-! ### Lists -/

namespace Listing

/-- **Induction over the entries of a list.** What new entries, further lines and nested lists keep
of the entries, the latest first, holds of them at the end. -/
theorem collect_induction {Q : List Item → Prop} (base : Nat) (ordered : Bool)
    (hentry : ∀ m done, m.ordered = ordered → Q done → Q (item m :: done))
    (hline : ∀ line done, Q done → Q (onLatest (Item.addLine line) done))
    (hchild : ∀ m first items done, Q done →
      Q (onLatest (Item.addChild (list m first items)) done))
    {done : List Item} (lines : List Text) (hdone : Q done) :
    Q (collect base ordered done lines).value.items.reverse := by
  induction hn : lines.length using Nat.strongRecOn generalizing done lines with
  | ind n ih =>
    have hend : Q done.reverse.reverse := by rwa [List.reverse_reverse]
    cases lines with
    | nil => simpa using hdone
    | cons line rest =>
      simp only [List.length_cons] at hn
      have hlength : ∀ k, (rest.drop k).length < n := fun k => by
        simp only [List.length_drop]
        omega
      rw [collect_cons]
      split
      · exact hend
      · exact ih _ (hlength _) _ hdone rfl
      · exact ih _ (hlength _) _ (hchild _ _ _ done hdone) rfl
      · next m hturn => exact ih _ (by omega) rest (hentry m done (marker?_of_turn_entry hturn).2 hdone) rfl
      · exact ih _ (by omega) rest (hline _ done hdone) rfl

theorem isWellFormed_item (m : Line.Marker) : (item m).IsWellFormed m.ordered := by
  unfold item
  dsimp only
  split
  · exact ⟨by simp [Item.children], fun _ => rfl⟩
  · next hordered =>
    have hbullet : ∀ i : Item, m.ordered = true → i.checked = none := fun _ h => absurd h hordered
    split
    · exact ⟨by simp [Item.children], hbullet _⟩
    · exact ⟨by simp [Item.children], hbullet _⟩

variable {ordered : Bool} {i : Item}

theorem isWellFormed_addLine (line : Text) (h : i.IsWellFormed ordered) :
    (i.addLine line).IsWellFormed ordered := by
  cases i
  exact h

theorem isWellFormed_addChild (m : Line.Marker) (first : Int) (items : List Item)
    (h : i.IsWellFormed ordered) : (i.addChild (list m first items)).IsWellFormed ordered := by
  cases i with
  | mk content checked children =>
    refine ⟨fun b hb => ?_, h.2⟩
    rcases List.mem_append.mp hb with hb | hb
    · exact h.1 b hb
    · exact ⟨m.ordered, first, items, List.mem_singleton.mp hb⟩

/-- What holds of some entries still holds when the latest is changed. -/
theorem areWellFormed_onLatest {f : Item → Item}
    (hf : ∀ i : Item, i.IsWellFormed ordered → (f i).IsWellFormed ordered) {items : List Item}
    (h : items ≠ [] ∧ ∀ i ∈ items, i.IsWellFormed ordered) :
    onLatest f items ≠ [] ∧ ∀ i ∈ onLatest f items, i.IsWellFormed ordered := by
  obtain ⟨hne, hitems⟩ := h
  obtain ⟨i, r, rfl⟩ := List.exists_cons_of_ne_nil hne
  exact ⟨by simp [onLatest], forall_mem_onLatest hitems hf fun _ hi => hi⟩

theorem isWellFormed_opened (structured : Bool) (base : Nat) (m : Line.Marker) (rest : List Text) :
    (opened base m rest).IsWellFormed structured := by
  have hfirst : [item m] ≠ [] ∧ ∀ i ∈ [item m], i.IsWellFormed m.ordered :=
    ⟨by simp, List.forall_mem_singleton.mpr (isWellFormed_item m)⟩
  have hitems := collect_induction
    (Q := fun items => items ≠ [] ∧ ∀ i ∈ items, i.IsWellFormed m.ordered) base m.ordered
    (fun m' done hordered h => ⟨by simp,
      List.forall_mem_cons.mpr ⟨hordered ▸ isWellFormed_item m', h.2⟩⟩)
    (fun line done h => areWellFormed_onLatest (fun i hi => isWellFormed_addLine line hi) h)
    (fun m' first items done h =>
      areWellFormed_onLatest (fun i hi => isWellFormed_addChild m' first items hi) h)
    rest hfirst
  refine ⟨by simpa using hitems.1, fun i hi => hitems.2 i (List.mem_reverse.mpr hi), fun hbullet => ?_⟩
  have hdigits : m.digits = none := by simpa [Line.Marker.ordered] using hbullet
  rw [start, hdigits]
  rfl

end Listing

/-! ### The other blocks -/

theorem Row.cellsFrom_ne_nil (current t : Text) : cellsFrom current t ≠ [] := by
  fun_induction cellsFrom current t with
  | case1 => simp
  | case2 _ _ ih => exact ih
  | case3 => simp
  | case4 _ _ _ _ _ ih => exact ih

theorem Row.cells_ne_nil (line : Text) : cells line ≠ [] :=
  cellsFrom_ne_nil _ _

theorem Row.alignments?_ne_nil {line : Text} {alignments : List (Option Alignment)}
    (h : alignments? line = some alignments) : alignments ≠ [] := by
  unfold alignments? at h
  split at h
  · dsimp only at h
    split at h
    · obtain rfl := Option.some.inj h
      simpa using cells_ne_nil line
    · cases h
  · cases h

theorem Glossary.startsEntry_cons {line : Text} {rest : List Text}
    (h : startsEntry (line :: rest) = true) : Text.trim line ≠ [] ∧ meanings rest ≠ [] := by
  cases rest with
  | nil => cases h
  | cons next rest =>
    simp only [startsEntry, Bool.and_eq_true] at h
    obtain ⟨hterm, hmeaning⟩ := h
    obtain ⟨text, htext⟩ := Option.isSome_iff_exists.mp hmeaning
    refine ⟨fun hnil => ?_, by simp [meanings, htext]⟩
    rw [isTerm, hnil] at hterm
    cases hterm

theorem Glossary.isWellFormed_entries (lines : List Text) :
    ∀ d ∈ (entries lines).1, d.term ≠ [] ∧ d.meanings ≠ [] := by
  fun_induction entries lines with
  | case1 => simp
  | case2 line rest hstart ms more ih =>
    exact List.forall_mem_cons.mpr ⟨startsEntry_cons hstart, ih⟩
  | case3 line rest _ _ blanks _ more ih => exact ih
  | case4 => simp
  | case5 => simp

theorem Paragraph.not_allBlank_of_mem_continuation (number : Nat) (lines : List Text) :
    ∀ l ∈ (continuation number lines).value.1, Text.allBlank l = false := by
  induction lines generalizing number with
  | nil => simp [continuation]
  | cons line rest ih =>
    rw [continuation]
    split
    · simp
    · next hline =>
      rw [Report.value_bind]
      split
      · simp
      · exact List.forall_mem_cons.mpr ⟨by simpa using hline, ih (number + 1)⟩

theorem Paragraph.isWellFormed_startingAt (structured : Bool) (number : Nat) {line : Text}
    {rest : List Text} (hline : Text.allBlank line = false) (h : AreLines (line :: rest)) :
    (startingAt number line rest).block.IsWellFormed structured := by
  have hprefix := Paragraph.continuation_prefix (number + 1) rest
  have hlines := (h.of_prefix hprefix).lines_unlines (by simp)
  intro l hl
  rw [hlines] at hl
  rcases List.mem_cons.mp hl with rfl | hl
  · exact hline
  · exact not_allBlank_of_mem_continuation (number + 1) rest l hl

theorem Shape.isWellFormed_of_recogniser (structured : Bool) {s : Shape} (hs : s ≠ .list)
    {number : Nat} {line : Text} {rest : List Text} {m : Match}
    (hline : Text.allBlank line = false) (hlines : AreLines (line :: rest))
    (h : s.recogniser number line rest = some m) (hclean : m.report.IsClean) :
    m.block.IsWellFormed structured := by
  have hlevel := isLevelled_of_recogniser hs h
  unfold recogniser at h
  cases s with
  | fencedCode =>
    obtain ⟨-, rfl⟩ := Fence.recognise_eq_some h
    exact fun hdetected => by cases hdetected
  | hashHeading =>
    obtain ⟨n, behind, body, -, -, hbody, rfl⟩ := Heading.recognise_eq_some h
    exact ⟨hlevel, hbody, Text.trim_trim body⟩
  | underlinedHeading =>
    obtain ⟨next, more, level, -, -, -, rfl⟩ := Heading.recogniseUnderlined_eq_some h
    exact ⟨hlevel, Text.trim_ne_nil hline, Text.trim_trim line⟩
  | rule =>
    obtain ⟨-, rfl⟩ := Heading.recogniseRule_eq_some h
    trivial
  | quote => cases h
  | table =>
    obtain ⟨separator, more, alignments, -, -, halignments, rfl⟩ := Table.recognise_eq_some h
    refine ⟨Row.cells_ne_nil line, Row.alignments?_ne_nil halignments, fun row hrow => ?_⟩
    obtain ⟨l, -, rfl⟩ := List.mem_map.mp hrow
    exact Row.cells_ne_nil l
  | glossary =>
    obtain ⟨hstart, rfl⟩ := Glossary.recognise_eq_some h
    refine ⟨?_, Glossary.isWellFormed_entries (line :: rest)⟩
    rw [Glossary.entries, if_pos hstart]
    exact List.cons_ne_nil _ _
  | list => exact absurd rfl hs
  | indentedCode =>
    obtain ⟨code, -, -, rfl⟩ := Fence.recogniseIndented_eq_some h
    exact fun hdetected => by cases hdetected
  | json =>
    obtain ⟨n, -, hread, rfl⟩ := Data.recogniseJson_eq_some h
    exact fun _ => .inl ⟨rfl, hread⟩
  | yaml =>
    obtain ⟨-, hmore, notes, rfl, ⟨hload, rfl⟩ | ⟨f, -, rfl⟩⟩ := Data.recogniseYaml_eq_some h
    · refine fun _ => .inr ⟨rfl, ?_, hload⟩
      have hprefix := List.takeWhile_prefix (fun l => !Text.allBlank l) (l := rest)
      have hvisible : ∀ l ∈ line :: rest.takeWhile (fun l => !Text.allBlank l),
          (!Text.allBlank l) = true :=
        List.forall_mem_cons.mpr ⟨by simp [hline],
          fun l hl => List.mem_takeWhile_imp (p := fun l => !Text.allBlank l) hl⟩
      have hpos := List.length_pos_iff.mpr hmore
      rw [(hlines.of_prefix hprefix).lines_unlines (by simp), List.countP_eq_length.mpr hvisible,
        List.length_cons]
      omega
    · exact absurd (List.mem_singleton.mpr rfl) (hclean (Fault.yaml f))

/-! ### Documents -/

namespace Document

theorem yieldsWith_isWellFormed (structured : Bool) :
    YieldsWith structured (fun ns => ∀ f, .failed f ∉ ns) AreLines
      (Block.IsWellFormed structured) where
  parts ns ms h :=
    ⟨fun f hf => h f (List.mem_append_left ms hf), fun f hf => h f (List.mem_append_right ns hf)⟩
  tail _ _ h := h.tail
  quoted _ _ _ h ht := h.quoted ht
  leaf s number line rest m hs hline h hm hclean :=
    Shape.isWellFormed_of_recogniser structured hs hline h hm hclean
  paragraph number line rest hline h := Paragraph.isWellFormed_startingAt structured number hline h
  list base line rest m _ _ := Listing.isWellFormed_opened structured base m rest
  quote lines hne h hclean := by
    show (blocks structured (Text.lines (Text.unlines lines))).answer = _
    rw [h.lines_unlines hne]
    exact Report.IsClean.answer_eq hclean

/-- **All blocks of a text are well formed.** If splitting a text gives an answer, each of its blocks
is well formed, as are all blocks inside quotes and entries, at every depth. -/
theorem every_isWellFormed_of_tokenize (c : Config) (t : Text) (s : References) {bs : List Block}
    (h : (tokenize c t s).1.answer = .ok bs) :
    ∀ b ∈ bs, b.Every (Block.IsWellFormed c.structuredData) := by
  have hclean := Report.exists_answer_eq_ok_iff.mp ⟨bs, h⟩
  rw [hclean.answer_eq, Except.ok.injEq] at h
  subst h
  unfold tokenize at hclean ⊢
  by_cases hempty : t.isEmpty = true
  · rw [if_pos hempty]
    simp
  · rw [if_neg hempty] at hclean ⊢
    rw [Report.isClean_bind_iff] at hclean
    exact every_blocksFrom_with (yieldsWith_isWellFormed c.structuredData) 0 _
      (fun l hl => Text.newline_notMem_of_mem_lines hl) hclean.1

/-- A quote that holds a list inside an entry with a box, and a mapping without a fence. -/
theorem every_isWellFormed_of_tokenize_nested :
    ∃ bs, (tokenize {} "> - [ ] a\n>   2. b\n\nk: 1\nl: 2".toList .empty).1.answer = .ok bs ∧
      (bs matches [.quote _ [.list false 1 [.mk _ (some false) [.list true 2 [_]]]],
        .code _ _ true]) = true ∧
      ∀ b ∈ bs, b.Every (Block.IsWellFormed true) := by
  have hshape : ((tokenize {} "> - [ ] a\n>   2. b\n\nk: 1\nl: 2".toList .empty).1.answer.toOption.map
      fun bs => bs matches [.quote _ [.list false 1 [.mk _ (some false) [.list true 2 [_]]]],
        .code _ _ true]) = some true := by
    rw [String.toList_ofList]
    decide +kernel
  cases h : (tokenize {} "> - [ ] a\n>   2. b\n\nk: 1\nl: 2".toList .empty).1.answer with
  | error f =>
    rw [h] at hshape
    cases hshape
  | ok bs =>
    rw [h] at hshape
    exact ⟨bs, rfl, Option.some.inj hshape, every_isWellFormed_of_tokenize {} _ .empty h⟩

end Document

end Markdown
