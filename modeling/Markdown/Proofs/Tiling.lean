import Markdown.Document
import Markdown.Proofs.Listing
import Mathlib.Logic.ExistsUnique

/-!
# Blocks tile the lines

Every recogniser, called at a line that is not blank, takes that line and stays inside the lines
that it was given. It follows that splitting lines into blocks tiles them: the lines of a block are
consecutive, the blocks stand in document order, no line belongs to two of them, and only blank
lines belong to none.

The bound of each recogniser is a lemma of its own (`Shape.extra_le`). `Document.matchAt` is the
match that decides at a line, and `Document.blocksFrom_cons` says that splitting goes on behind it.
`Document.placedFrom` keeps the places of the blocks beside them; `map_block_placedFrom` says that
the blocks are the same.
-/

namespace Markdown

/-- The number of the line behind a match that was found at line `i`. -/
def Match.stop (m : Match) (i : Nat) : Nat :=
  i + m.extra + 1

/-- A recogniser stays inside the lines that it is given. -/
def Recogniser.Bounded (r : Recogniser) : Prop :=
  ∀ number line rest m, r number line rest = some m → m.extra ≤ rest.length

/-! ### Code -/

theorem Fence.bounded_recognise : Recogniser.Bounded Fence.recognise := by
  intro number line rest m h
  have hle := (List.takeWhile_sublist (fun l => !Line.isFence l) (l := rest)).length_le
  unfold Fence.recognise at h
  split at h
  · obtain rfl := Option.some.inj h
    dsimp only
    split <;> omega
  · cases h

theorem Fence.length_indentedBody_le (lines : List Text) :
    (indentedBody lines).length ≤ lines.length := by
  induction lines with
  | nil => simp [indentedBody]
  | cons l r ih =>
    rw [indentedBody]
    split
    · simpa using ih
    · simp

theorem Fence.bounded_recogniseIndented : Recogniser.Bounded Fence.recogniseIndented := by
  intro number line rest m h
  have hle := length_indentedBody_le rest
  unfold Fence.recogniseIndented at h
  split at h
  · cases h
  · dsimp only at h
    split at h
    · cases h
    · obtain rfl := Option.some.inj h
      simpa using hle

/-! ### Headings and tables -/

theorem Heading.bounded_recognise : Recogniser.Bounded Heading.recognise := by
  intro number line rest m h
  unfold Heading.recognise at h
  split at h
  · cases h
  · split at h
    · cases h
    · dsimp only at h
      split at h
      · cases h
      · obtain rfl := Option.some.inj h
        exact Nat.zero_le _

theorem Heading.bounded_recogniseUnderlined : Recogniser.Bounded Heading.recogniseUnderlined := by
  intro number line rest m h
  unfold Heading.recogniseUnderlined at h
  split at h
  · cases h
  · split at h
    · cases h
    · obtain ⟨level, -, rfl⟩ := Option.map_eq_some_iff.mp h
      simp

theorem Heading.bounded_recogniseRule : Recogniser.Bounded Heading.recogniseRule := by
  intro number line rest m h
  unfold Heading.recogniseRule at h
  split at h
  · obtain rfl := Option.some.inj h
    exact Nat.zero_le _
  · cases h

theorem Table.bounded_recognise : Recogniser.Bounded Table.recognise := by
  intro number line rest m h
  unfold Table.recognise at h
  split at h
  · cases h
  · next separator rest =>
    have hle := (List.takeWhile_sublist isRow (l := rest)).length_le
    split at h
    · split at h
      · cases h
      · obtain rfl := Option.some.inj h
        simpa using hle
    · cases h

/-! ### Definition lists -/

theorem Glossary.length_meanings_le (lines : List Text) :
    (meanings lines).length ≤ lines.length := by
  induction lines with
  | nil => simp [meanings]
  | cons l r ih =>
    rw [meanings]
    split
    · simpa using ih
    · simp

theorem Glossary.entries_taken_le (lines : List Text) : (entries lines).2 ≤ lines.length := by
  fun_induction entries lines with
  | case1 => simp
  | case2 line rest hstart ms more ih =>
    have hms : ms.length ≤ rest.length := length_meanings_le rest
    have hmore : more.2 ≤ rest.length - ms.length := by simpa using ih
    simp only [List.length_cons]
    omega
  | case3 line rest hstart hblank blanks hnext more ih =>
    have hle : blanks ≤ rest.length := (List.takeWhile_sublist Text.allBlank).length_le
    have hmore : more.2 ≤ rest.length - blanks := by simpa using ih
    simp only [List.length_cons]
    omega
  | case4 => simp
  | case5 => simp

/-- The entries of a definition list take its first line. -/
theorem Glossary.entries_taken_pos {line : Text} {rest : List Text}
    (h : startsEntry (line :: rest)) : 0 < (entries (line :: rest)).2 := by
  rw [entries, if_pos h]
  dsimp only
  omega

theorem Glossary.bounded_recognise : Recogniser.Bounded Glossary.recognise := by
  intro number line rest m h
  have hle := entries_taken_le (line :: rest)
  unfold Glossary.recognise at h
  split at h
  · obtain rfl := Option.some.inj h
    simp only [List.length_cons] at hle
    dsimp only
    omega
  · cases h

/-! ### Lists -/

theorem Listing.bounded_recogniseFrom (base : Option Nat) :
    Recogniser.Bounded (Listing.recogniseFrom base) := by
  intro number line rest m h
  unfold Listing.recogniseFrom at h
  split at h
  · cases h
  · dsimp only at h
    split at h
    · cases h
    · obtain rfl := Option.some.inj h
      exact collect_taken_le _ _ _ rest

/-! ### Unfenced data -/

/-- Closing all brackets takes at least one line and no more than there are. -/
theorem Data.balancedLines_mem {depth : Int} {inString : Bool} {lines : List Text} {n : Nat}
    (h : balancedLines depth inString lines = some n) : 0 < n ∧ n ≤ lines.length := by
  induction lines generalizing depth inString n with
  | nil => simp [balancedLines] at h
  | cons line r ih =>
    rw [balancedLines] at h
    split at h
    · cases h
    · dsimp only at h
      split at h
      · obtain rfl := Option.some.inj h
        simp
      · obtain ⟨k, hk, rfl⟩ := Option.map_eq_some_iff.mp h
        have := ih hk
        simp only [List.length_cons]
        omega

theorem Data.bounded_recogniseJson : Recogniser.Bounded Data.recogniseJson := by
  intro number line rest m h
  unfold Data.recogniseJson at h
  split at h
  · split at h
    · split at h
      · cases h
      · next n hn =>
        have hle := balancedLines_mem hn
        simp only [List.length_cons] at hle
        dsimp only at h
        split at h
        · cases h
        · obtain rfl := Option.some.inj h
          dsimp only
          omega
    · cases h
  · cases h

theorem Data.bounded_recogniseYaml [Yaml.Reader] : Recogniser.Bounded Data.recogniseYaml := by
  intro number line rest m h
  have hle := (List.takeWhile_sublist (fun l => !Text.allBlank l) (l := rest)).length_le
  unfold Data.recogniseYaml at h
  split at h
  · dsimp only at h
    split at h
    · cases h
    · split at h
      · obtain rfl := Option.some.inj h
        exact hle
      · obtain rfl := Option.some.inj h
        exact hle
      · cases h
  · cases h

/-! ### Paragraphs and quotes -/

theorem Paragraph.length_continuation_le (number : Nat) (lines : List Text) :
    (continuation number lines).value.1.length + (if (continuation number lines).value.2 then 1
      else 0) ≤ lines.length := by
  induction lines generalizing number with
  | nil => simp [continuation]
  | cons line rest ih =>
    rw [continuation]
    split
    · simp
    · simp only [Report.value_bind]
      split
      · simp
      · have hle := ih (number + 1)
        simp only [Report.value_bind, Report.value_pure, List.length_cons, Nat.add_right_comm _ 1]
        exact Nat.succ_le_succ hle

theorem Paragraph.extra_startingAt_le (number : Nat) (line : Text) (rest : List Text) :
    (startingAt number line rest).extra ≤ rest.length :=
  length_continuation_le (number + 1) rest

theorem Quote.length_body_le (lines : List Text) : (body lines).length ≤ lines.length := by
  induction lines with
  | nil => simp [body]
  | cons line r ih =>
    rw [body]
    split
    · simpa using ih
    · simp

/-! ### All recognisers -/

theorem Shape.bounded_recogniser [Yaml.Reader] (s : Shape) : s.recogniser.Bounded := by
  cases s with
  | fencedCode => exact Fence.bounded_recognise
  | hashHeading => exact Heading.bounded_recognise
  | underlinedHeading => exact Heading.bounded_recogniseUnderlined
  | rule => exact Heading.bounded_recogniseRule
  | quote => intro number line rest m h; cases h
  | table => exact Table.bounded_recognise
  | glossary => exact Glossary.bounded_recognise
  | list => exact Listing.bounded_recogniseFrom none
  | indentedCode => exact Fence.bounded_recogniseIndented
  | json => exact Data.bounded_recogniseJson
  | yaml => exact Data.bounded_recogniseYaml

namespace Document

theorem recognise_of_ne_quote [Yaml.Reader] (structured : Bool) {shape : Shape} (h : shape ≠ .quote) :
    recognise structured shape = shape.recogniser := by
  cases shape <;> first | rfl | exact absurd rfl h

theorem bounded_recognise [Yaml.Reader] (structured : Bool) (shape : Shape) :
    (recognise structured shape).Bounded := by
  by_cases h : shape = .quote
  · subst h
    intro number line rest m hm
    obtain ⟨text, -, rfl⟩ := Option.map_eq_some_iff.mp hm
    exact Quote.length_body_le rest
  · rw [recognise_of_ne_quote structured h]
    exact shape.bounded_recogniser

theorem findSome?_recognise [Yaml.Reader] (structured : Bool) {shapes : List Shape}
    (h : .quote ∉ shapes) (number : Nat) (line : Text) (rest : List Text) :
    (shapes.findSome? fun s => recognise structured s number line rest) =
      Shape.firstMatch shapes number line rest := by
  induction shapes with
  | nil => rfl
  | cons s shapes ih =>
    have hs : .quote ≠ s := List.ne_of_not_mem_cons h
    have ih := ih (List.not_mem_of_not_mem_cons h)
    simp only [Shape.firstMatch] at ih
    simp only [Shape.firstMatch, List.findSome?_cons, ih,
      recognise_of_ne_quote structured hs.symm]

/-- The match that decides at a line: that of the first recogniser that answers, else the
paragraph that starts there. -/
def matchAt [Yaml.Reader] (structured : Bool) (number : Nat) (line : Text) (rest : List Text) :
    Match :=
  ((Shape.priority structured).findSome? fun s => recognise structured s number line rest).getD
    (Paragraph.startingAt number line rest)

theorem extra_matchAt_le [Yaml.Reader] (structured : Bool) (number : Nat) (line : Text)
    (rest : List Text) : (matchAt structured number line rest).extra ≤ rest.length := by
  unfold matchAt
  cases h : (Shape.priority structured).findSome? fun s => recognise structured s number line rest with
  | none => exact Paragraph.extra_startingAt_le number line rest
  | some m =>
    obtain ⟨s, -, hs⟩ := List.exists_of_findSome?_eq_some h
    exact bounded_recognise structured s _ _ _ _ hs

/-- Quoted lines have their place between the shapes that go before them and the others. -/
theorem findSome?_priority [Yaml.Reader] (structured : Bool) (number : Nat) (line : Text)
    (rest : List Text) :
    ((Shape.priority structured).findSome? fun s => recognise structured s number line rest) =
      (Shape.firstMatch Shape.beforeQuote number line rest).or
        ((recognise structured .quote number line rest).or
          (Shape.firstMatch (Shape.afterQuote structured) number line rest)) := by
  rw [Shape.priority, List.findSome?_append, findSome?_recognise structured (by decide),
    List.findSome?_cons, findSome?_recognise structured (by cases structured <;> decide)]
  cases recognise structured .quote number line rest <;> rfl

/-! ### Splitting goes on behind the match -/

/-- The step of splitting at a line that is not blank. -/
theorem blocksFrom_cons [Yaml.Reader] (structured : Bool) (number : Nat) {line : Text}
    (rest : List Text) (hline : Text.allBlank line = false) :
    blocksFrom structured number (line :: rest) = (do
      let m := matchAt structured number line rest
      let block ← m.report
      let more ← blocksFrom structured (number + m.extra + 1) (rest.drop m.extra)
      pure (block :: more)) := by
  rw [blocksFrom, if_neg (by simp [hline]), matchAt, findSome?_priority]
  cases Shape.firstMatch Shape.beforeQuote number line rest with
  | some m => rfl
  | none =>
    dsimp only
    split
    · next text htext =>
      simp only [recognise, htext]
      rfl
    · next htext =>
      simp only [recognise, htext]
      rfl

/-- A blank line belongs to no block. -/
theorem blocksFrom_blank [Yaml.Reader] (structured : Bool) (number : Nat) {line : Text}
    (rest : List Text) (hline : Text.allBlank line) :
    blocksFrom structured number (line :: rest) = blocksFrom structured (number + 1) rest := by
  rw [blocksFrom, if_pos hline]

@[simp] theorem blocksFrom_nil [Yaml.Reader] (structured : Bool) (number : Nat) :
    blocksFrom structured number [] = pure [] := by
  rw [blocksFrom]

/-! ### Places -/

/-- A block with its place: its lines are those from `first` up to `stop`, which is the number of
the line behind the last one. -/
structure Placed where
  /-- The block. -/
  block : Block
  /-- The number of its first line. -/
  first : Nat
  /-- The number of the line behind its last one. -/
  stop : Nat

/-- Whether a line belongs to a placed block. -/
def Placed.Covers (p : Placed) (i : Nat) : Prop :=
  p.first ≤ i ∧ i < p.stop

/-- The blocks of some lines with their places; `number` is the number of the first line. -/
def placedFrom (structured : Bool) (number : Nat) : List Text → List Placed
  | [] => []
  | line :: rest =>
    if Text.allBlank line then placedFrom structured (number + 1) rest
    else
      let m := matchAt structured number line rest
      ⟨m.block, number, m.stop number⟩ ::
        placedFrom structured (m.stop number) (rest.drop m.extra)
termination_by lines => lines.length
decreasing_by all_goals simp only [List.length_cons, List.length_drop]; omega

/-- The places belong to the blocks of the lines. -/
theorem map_block_placedFrom (structured : Bool) (number : Nat) (lines : List Text) :
    (placedFrom structured number lines).map (·.block) =
      (blocksFrom structured number lines).value := by
  fun_induction placedFrom structured number lines with
  | case1 => simp
  | case2 number line rest hline ih => rw [blocksFrom_blank _ _ _ hline, ih]
  | case3 number line rest hline m ih =>
    rw [blocksFrom_cons _ _ _ (by simpa using hline), List.map_cons, ih]
    rfl

/-- A placed block is the match that decides at its first line, which is not blank, and stays inside
the lines. -/
theorem matchAt_of_mem_placedFrom {structured : Bool} {number : Nat} {lines : List Text}
    {p : Placed} (hp : p ∈ placedFrom structured number lines) :
    ∃ i line rest, lines.drop i = line :: rest ∧ Text.allBlank line = false ∧
      p.first = number + i ∧ p.block = (matchAt structured p.first line rest).block ∧
      p.stop = (matchAt structured p.first line rest).stop p.first ∧
      p.stop ≤ number + lines.length := by
  fun_induction placedFrom structured number lines with
  | case1 => cases hp
  | case2 number line rest hline ih =>
    obtain ⟨i, l, r, hdrop, hl, hfirst, hblock, hstop, hle⟩ := ih hp
    exact ⟨i + 1, l, r, hdrop, hl, by omega, hblock, hstop, by simp only [List.length_cons]; omega⟩
  | case3 number line rest hline m ih =>
    have hm : m.extra ≤ rest.length := extra_matchAt_le structured number line rest
    rcases List.mem_cons.mp hp with rfl | hp
    · refine ⟨0, line, rest, rfl, by simpa using hline, rfl, rfl, rfl, ?_⟩
      simp only [Match.stop, List.length_cons]
      omega
    · obtain ⟨i, l, r, hdrop, hl, hfirst, hblock, hstop, hle⟩ := ih hp
      simp only [Match.stop, List.length_drop] at hfirst hle
      refine ⟨m.extra + 1 + i, l, r, ?_, hl, by omega, hblock, hstop, ?_⟩
      · rw [Nat.add_right_comm, List.drop_succ_cons, ← List.drop_drop, hdrop]
      · simp only [List.length_cons]
        omega

/-- The places are disjoint and stand in order. -/
theorem pairwise_placedFrom (structured : Bool) (number : Nat) (lines : List Text) :
    (placedFrom structured number lines).Pairwise (fun a b => a.stop ≤ b.first) := by
  fun_induction placedFrom structured number lines with
  | case1 => exact List.Pairwise.nil
  | case2 number line rest hline ih => exact ih
  | case3 number line rest hline m ih =>
    refine List.pairwise_cons.mpr ⟨fun p hp => ?_, ih⟩
    obtain ⟨i, -, -, -, -, hfirst, -⟩ := matchAt_of_mem_placedFrom hp
    simp only
    omega

/-- Places that are disjoint share no line. -/
theorem Placed.eq_of_covers {places : List Placed}
    (h : places.Pairwise (fun a b => a.stop ≤ b.first)) {p q : Placed} (hp : p ∈ places)
    (hq : q ∈ places) {i : Nat} (hpi : p.Covers i) (hqi : q.Covers i) : p = q := by
  unfold Placed.Covers at hpi hqi
  induction places with
  | nil => cases hp
  | cons a places ih =>
    obtain ⟨ha, hplaces⟩ := List.pairwise_cons.mp h
    rcases List.mem_cons.mp hp with rfl | hp <;> rcases List.mem_cons.mp hq with rfl | hq
    · rfl
    · have hle := ha q hq
      omega
    · have hle := ha p (by assumption)
      omega
    · exact ih hplaces hp hq

/-- Every line that is not blank belongs to a block. -/
theorem exists_covers_placedFrom (structured : Bool) (number : Nat) {lines : List Text} {i : Nat}
    {line : Text} (hi : lines[i]? = some line) (hline : Text.allBlank line = false) :
    ∃ p ∈ placedFrom structured number lines, p.Covers (number + i) := by
  fun_induction placedFrom structured number lines generalizing i with
  | case1 => simp at hi
  | case2 number l rest hl ih =>
    cases i with
    | zero =>
      obtain rfl : l = line := by simpa using hi
      simp [hline] at hl
    | succ i =>
      obtain ⟨p, hp, hcovers⟩ := ih hi
      exact ⟨p, hp, by rwa [Nat.add_assoc, Nat.add_comm 1] at hcovers⟩
  | case3 number l rest hl m =>
    rename_i ih
    by_cases hlt : i ≤ m.extra
    · refine ⟨_, List.mem_cons_self, Nat.le_add_right _ _, ?_⟩
      simp only [Match.stop]
      omega
    · obtain ⟨k, rfl⟩ : ∃ k, i = m.extra + 1 + k := ⟨i - (m.extra + 1), by omega⟩
      have hk : (rest.drop m.extra)[k]? = some line := by
        rw [List.getElem?_drop, ← hi, Nat.add_right_comm, List.getElem?_cons_succ]
      obtain ⟨p, hp, hcovers⟩ := ih hk
      refine ⟨p, List.mem_cons_of_mem _ hp, ?_⟩
      simpa only [Match.stop, Nat.add_assoc, Nat.add_left_comm] using hcovers

/-- The places of the blocks of a document. -/
def placed (structured : Bool) (lines : List Text) : List Placed :=
  placedFrom structured 0 lines

end Document

/-- A match that was found at line `i` takes this line and stays inside the first `n` lines. -/
def Match.Fits (m : Match) (i n : Nat) : Prop :=
  i < m.stop i ∧ m.stop i ≤ n

theorem Match.fits_of_extra_le {m : Match} {i : Nat} {line : Text} {lines rest : List Text}
    (hi : lines.drop i = line :: rest) (hm : m.extra ≤ rest.length) : m.Fits i lines.length := by
  have hlen := congrArg List.length hi
  simp only [List.length_drop, List.length_cons] at hlen
  unfold Match.Fits Match.stop
  omega

/-- **Blocks tile the lines.** At a line that is not blank, every recogniser that answers, the list
recogniser at any column and the paragraph take that line and stay inside the lines. Splitting is
defined for all lines; each of its blocks has a place, is the match that decides at its first line,
and takes at least one line and no line that is not there; the places stand in document order
without common lines, and every line that is not blank lies in exactly one of them. -/
theorem Document.blocks_tile (structured : Bool) (lines : List Text) :
    (∀ i line rest, lines.drop i = line :: rest → Text.allBlank line = false →
      (∀ shape m, recognise structured shape i line rest = some m → m.Fits i lines.length) ∧
      (∀ base m, Listing.recogniseFrom base i line rest = some m → m.Fits i lines.length) ∧
      (Paragraph.startingAt i line rest).Fits i lines.length) ∧
    (placed structured lines).map (·.block) = (blocks structured lines).value ∧
    (∀ p ∈ placed structured lines, ∃ line rest,
      lines.drop p.first = line :: rest ∧ Text.allBlank line = false ∧
      p.block = (matchAt structured p.first line rest).block ∧
      p.stop = (matchAt structured p.first line rest).stop p.first ∧
      p.first < p.stop ∧ p.stop ≤ lines.length) ∧
    (placed structured lines).Pairwise (fun a b => a.stop ≤ b.first) ∧
    (∀ i line, lines[i]? = some line → Text.allBlank line = false →
      ∃! p, p ∈ placed structured lines ∧ p.Covers i) := by
  have hdisjoint := pairwise_placedFrom structured 0 lines
  refine ⟨fun i line rest hi _ => ⟨?_, ?_, ?_⟩, map_block_placedFrom structured 0 lines, ?_,
    hdisjoint, ?_⟩
  · intro shape m hm
    exact Match.fits_of_extra_le hi (bounded_recognise structured shape _ _ _ _ hm)
  · intro base m hm
    exact Match.fits_of_extra_le hi (Listing.bounded_recogniseFrom base _ _ _ _ hm)
  · exact Match.fits_of_extra_le hi (Paragraph.extra_startingAt_le i line rest)
  · intro p hp
    obtain ⟨i, line, rest, hi, hline, hfirst, hblock, hstop, hle⟩ := matchAt_of_mem_placedFrom hp
    obtain rfl : p.first = i := by omega
    refine ⟨line, rest, hi, hline, hblock, hstop, ?_, by omega⟩
    rw [hstop]
    exact (Match.fits_of_extra_le hi (extra_matchAt_le structured p.first line rest)).1
  · intro i line hi hline
    obtain ⟨p, hp, hcovers⟩ := exists_covers_placedFrom structured 0 hi hline
    rw [Nat.zero_add] at hcovers
    exact ⟨p, ⟨hp, hcovers⟩, fun q hq => Placed.eq_of_covers hdisjoint hq.1 hp hq.2 hcovers⟩

/-- A list inside a list behind a quote: the recogniser answers, and the inner line has one place. -/
theorem Document.blocks_tile_nested_list :
    let lines := ["> a".toList, [], "- b".toList, "  1. c".toList]
    (∃ m, recognise true .list 2 "- b".toList ["  1. c".toList] = some m ∧ m.Fits 2 4) ∧
    ∃! p, p ∈ placed true lines ∧ p.Covers 3 := by
  have h := blocks_tile true ["> a".toList, [], "- b".toList, "  1. c".toList]
  exact ⟨⟨_, rfl, (h.1 2 _ _ rfl (by decide)).1 .list _ rfl⟩,
    h.2.2.2.2 3 "  1. c".toList rfl (by decide)⟩

end Markdown
