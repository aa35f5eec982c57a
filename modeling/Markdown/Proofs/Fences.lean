import Markdown.Proofs.Shapes
import Markdown.Proofs.Tiling
import Mathlib.Algebra.Group.Nat.Even
import Mathlib.Data.List.ReduceOption
import Mathlib.Data.List.TakeWhile

/-!
# Definitions and fenced code

Definitions are taken out of a text line by line, before its lines are split into blocks. The one
pass takes a line for fenced if an odd number of fences stand in front of it; the other one makes
fenced code where no other block has taken the line. This file compares the two. `References.taken`
tells what is taken out at each line, and `References.getElem?_taken` says that the number of
fences in front decides. Inside fenced code that number is one more than in front of it
(`Placed.IsFenced.fences_take`), so its lines are kept if the number in front is even.

Going block by block, `even_fences_of_mem_placedFrom` says when it is: blocks that hold no fence do
not change it, and neither does fenced code that is closed. Lists, tables, definition lists,
indented code and data may take a fence that delimits nothing.
-/

namespace Markdown

namespace References

variable {fenced : Bool} {lines : List Text}

/-- What is taken out at each line: a definition, or nothing, and then the line is kept. Behind a
line with a fence `fenced` changes. -/
def taken (fenced : Bool) : List Text → List (Option DefinitionLine)
  | [] => []
  | line :: r =>
    if Line.isFence line then none :: taken (!fenced) r
    else (if fenced then none else definitionLine? line) :: taken fenced r

/-- The lines at which nothing is taken out. -/
def kept (fenced : Bool) (lines : List Text) : List Text :=
  ((lines.zip (taken fenced lines)).filter (·.2.isNone)).map Prod.fst

/-- Extraction keeps the lines at which nothing is taken out, and makes the other lines definitions,
one after another. -/
theorem extractLines_eq (s : References) (fenced : Bool) (lines : List Text) :
    s.extractLines fenced lines =
      (kept fenced lines, (taken fenced lines).reduceOption.foldl define s) := by
  induction lines generalizing s fenced with
  | nil => rfl
  | cons line r ih =>
    rw [extractLines, kept, taken]
    split
    · rw [ih]
      rfl
    · split
      · rw [ih]
        rfl
      · cases hd : definitionLine? line with
        | some d =>
          dsimp only
          rw [ih]
          rfl
        | none =>
          dsimp only
          rw [ih]
          rfl

/-- The number of lines that start with a fence. -/
def fences (lines : List Text) : Nat :=
  lines.countP Line.isFence

@[simp] theorem fences_append (a b : List Text) : fences (a ++ b) = fences a + fences b :=
  List.countP_append

theorem fences_cons_of_isFence {line : Text} (h : Line.isFence line = true) (r : List Text) :
    fences (line :: r) = fences r + 1 :=
  List.countP_cons_of_pos h

theorem fences_cons {line : Text} (h : Line.isFence line = false) (r : List Text) :
    fences (line :: r) = fences r :=
  List.countP_cons_of_neg (by simp [h])

/-- Nothing is taken out at a fence and behind an odd number of fences. -/
theorem getElem?_taken (fenced : Bool) (lines : List Text) (j : Nat) :
    (taken fenced lines)[j]? = lines[j]?.map fun line =>
      if Line.isFence line ∨ (fenced = true ↔ Even (fences (lines.take j))) then none
      else definitionLine? line := by
  induction lines generalizing fenced j with
  | nil => rfl
  | cons line r ih =>
    rw [taken]
    cases j with
    | zero =>
      by_cases hline : Line.isFence line = true <;> cases fenced <;> simp [hline, fences]
    | succ j =>
      rw [List.take_succ_cons]
      by_cases hline : Line.isFence line = true
      · rw [if_pos hline, List.getElem?_cons_succ, List.getElem?_cons_succ, ih,
          fences_cons_of_isFence hline]
        cases fenced <;> simp [Nat.even_add_one]
      · rw [if_neg hline, List.getElem?_cons_succ, List.getElem?_cons_succ, ih,
          fences_cons (by simpa using hline)]

end References

/-- Whether a block may take lines that start with a fence. -/
def Block.takesFences : Block → Bool
  | .list .. | .table .. | .definitions .. | .code .. => true
  | _ => false

namespace Document

open References (fences taken fences_append fences_cons fences_cons_of_isFence)

variable {structured : Bool} {lines : List Text}

/-! ### Fenced code -/

theorem trimStart_of_isFence {line : Text} (h : Line.isFence line = true) :
    ∃ r, Text.trimStart line = '\x60' :: r := by
  obtain ⟨r, hr⟩ := List.isPrefixOf_iff_prefix.mp h
  exact ⟨_, hr.symm⟩

theorem definitionLine?_of_isFence {line : Text} (h : Line.isFence line = true) :
    References.definitionLine? line = none := by
  obtain ⟨r, hr⟩ := trimStart_of_isFence h
  rw [References.definitionLine?, References.footnoteLine?, References.linkLine?, hr]
  rfl

/-- Fenced code goes before all other blocks. -/
theorem matchAt_of_fence {number : Nat} {line : Text} {rest : List Text} {m : Match}
    (h : recognise structured .fencedCode number line rest = some m) :
    matchAt structured number line rest = m := by
  rw [matchAt, Shape.priority, Shape.beforeQuote, List.cons_append, List.findSome?_cons, h]
  rfl

/-- A place that was found by the recogniser of fenced code. -/
structure Placed.IsFenced (structured : Bool) (lines : List Text) (p : Placed) : Prop where
  /-- It is the place of a block of the lines. -/
  mem : p ∈ placed structured lines
  /-- At its first line the recogniser answers. -/
  found : ∃ line rest m, lines.drop p.first = line :: rest ∧
    recognise structured .fencedCode p.first line rest = some m

/-- Fenced code starts with a fence, and at most one line is taken behind the lines that do not. -/
theorem Placed.IsFenced.exists_lines {p : Placed} (h : p.IsFenced structured lines) :
    ∃ line rest, lines.drop p.first = line :: rest ∧ Line.isFence line = true ∧
      p.stop ≤ p.first + (rest.takeWhile fun l => !Line.isFence l).length + 2 := by
  obtain ⟨line, rest, m, hdrop, hm⟩ := h.found
  obtain ⟨i, l, r, hi, -, hfirst, -, hstop, -⟩ := matchAt_of_mem_placedFrom h.mem
  obtain rfl : p.first = i := by omega
  obtain ⟨rfl, rfl⟩ : line = l ∧ rest = r := by simpa [hdrop] using hi
  have hanswer : Fence.recognise p.first line rest = some m := hm
  obtain ⟨hline, rfl⟩ := Fence.recognise_eq_some hanswer
  refine ⟨line, rest, hdrop, hline, ?_⟩
  rw [hstop, matchAt_of_fence hm, Match.stop]
  dsimp only
  split <;> omega

/-- Behind the first line of fenced code one more fence has been passed than in front of it. -/
theorem Placed.IsFenced.fences_take {p : Placed} (h : p.IsFenced structured lines) {j : Nat}
    (hfirst : p.first < j) (hstop : j < p.stop) :
    fences (lines.take j) = fences (lines.take p.first) + 1 := by
  obtain ⟨line, rest, hdrop, hline, hle⟩ := h.exists_lines
  obtain ⟨k, rfl⟩ : ∃ k, j = p.first + (k + 1) := ⟨j - p.first - 1, by omega⟩
  have hbody : fences (rest.take k) = 0 := by
    have htake : rest.take k = (rest.takeWhile fun l => !Line.isFence l).take k := by
      conv_lhs => rw [← List.takeWhile_append_dropWhile (p := fun l => !Line.isFence l) (l := rest)]
      exact List.take_append_of_le_length (by omega)
    rw [fences, htake, List.countP_eq_zero]
    intro l hl
    simpa using List.mem_takeWhile_imp (List.mem_of_mem_take hl)
  have hsplit : lines.take (p.first + (k + 1)) = lines.take p.first ++ line :: rest.take k := by
    rw [List.take_add, hdrop, List.take_succ_cons]
  rw [hsplit, fences_append, fences_cons_of_isFence hline, hbody]

/-- Nothing is taken out at a line of fenced code if it is no definition, or if an even number of
fences stand in front of the code. -/
theorem Placed.IsFenced.getElem?_taken_iff {p : Placed} (h : p.IsFenced structured lines) {j : Nat}
    {l : Text} (hj : p.Covers j) (hl : lines[j]? = some l) :
    (taken false lines)[j]? = some none ↔
      Even (fences (lines.take p.first)) ∨ References.definitionLine? l = none := by
  rw [References.getElem?_taken, hl, Option.map_some, Option.some_inj]
  by_cases hfence : Line.isFence l = true
  · simp [hfence, definitionLine?_of_isFence hfence]
  · -- The first line is a fence, so this one stands behind it.
    have hfirst : p.first ≠ j := by
      rintro rfl
      obtain ⟨line, rest, hdrop, hline, -⟩ := h.exists_lines
      have hhead := @List.getElem?_drop _ lines p.first 0
      rw [hdrop, Nat.add_zero, hl, List.getElem?_cons_zero, Option.some_inj] at hhead
      exact hfence (hhead ▸ hline)
    rw [h.fences_take (Nat.lt_of_le_of_ne hj.1 hfirst) hj.2]
    by_cases heven : Even (fences (lines.take p.first)) <;> simp [hfence, heven, Nat.even_add_one]

theorem Placed.IsFenced.stop_le {p : Placed} (h : p.IsFenced structured lines) :
    p.stop ≤ lines.length := by
  obtain ⟨-, -, -, -, -, -, -, -, hle⟩ := matchAt_of_mem_placedFrom h.mem
  simpa using hle

/-! ### Blocks that hold no fence -/

theorem isFence_of_strip? {line text : Text} (h : Quote.strip? line = some text) :
    Line.isFence line = false := by
  by_contra hfence
  obtain ⟨r, hr⟩ := trimStart_of_isFence (by simpa using hfence)
  rw [Quote.strip?, hr] at h
  cases h

theorem isFence_of_underlineLevel? {line : Text} {level : Int}
    (h : Heading.underlineLevel? line = some level) : Line.isFence line = false := by
  unfold Heading.underlineLevel? at h
  split at h
  · next c r =>
    obtain ⟨hc, -⟩ := Option.ite_none_right_eq_some.mp h
    simp only [Bool.and_eq_true, Bool.or_eq_true, beq_iff_eq] at hc
    rcases hc.1 with rfl | rfl <;> rfl
  · cases h

theorem isFence_of_allBlank {line : Text} (h : Text.allBlank line = true) :
    Line.isFence line = false := by
  have htrim : Text.trimStart line = [] := by
    simpa [Text.trimStart, Text.trimStartBy, Text.allBlank] using h
  rw [Line.isFence, htrim]
  rfl

/-- No quoted line starts with a fence. -/
theorem fences_quoted (lines : List Text) : fences (lines.take (Quote.body lines).length) = 0 := by
  induction lines with
  | nil => rfl
  | cons line r ih =>
    rw [Quote.body]
    split
    · next text htext =>
      rw [List.length_cons, List.take_succ_cons, fences_cons (isFence_of_strip? htext), ih]
    · rfl

/-- No line that continues a paragraph or ends it starts with a fence. -/
theorem fences_continuation (number : Nat) (lines : List Text) :
    fences (lines.take ((Paragraph.continuation number lines).value.1.length +
      if (Paragraph.continuation number lines).value.2 then 1 else 0)) = 0 := by
  induction lines generalizing number with
  | nil => rfl
  | cons line rest ih =>
    rw [Paragraph.continuation]
    split
    · next hblank =>
      simp [fences, isFence_of_allBlank hblank]
    · simp only [Report.value_bind]
      split
      · rfl
      · next hinterrupts =>
        have hline : Line.isFence line = false := by
          by_contra hfence
          rw [Paragraph.interrupts, if_pos (by simp [hfence])] at hinterrupts
          exact hinterrupts rfl
        have hrest := ih (number + 1)
        simp only [Report.value_bind, Report.value_pure, List.length_cons, Nat.add_right_comm _ 1,
          List.take_succ_cons]
        rw [fences_cons hline]
        exact hrest

/-- A recogniser takes fences only for the blocks that may take them. -/
theorem fences_of_recogniser {s : Shape} {number : Nat} {line : Text} {rest : List Text} {m : Match}
    (hs : s.recogniser number line rest = some m) (h : m.block.takesFences = false) :
    fences (rest.take m.extra) = 0 := by
  unfold Shape.recogniser at hs
  cases s with
  | fencedCode =>
    obtain ⟨-, rfl⟩ := Fence.recognise_eq_some hs
    cases h
  | hashHeading =>
    obtain ⟨n, behind, body, -, -, -, rfl⟩ := Heading.recognise_eq_some hs
    rfl
  | underlinedHeading =>
    obtain ⟨next, more, level, rfl, -, hlevel, rfl⟩ := Heading.recogniseUnderlined_eq_some hs
    simp [fences, isFence_of_underlineLevel? hlevel]
  | rule =>
    obtain ⟨-, rfl⟩ := Heading.recogniseRule_eq_some hs
    rfl
  | quote => cases hs
  | table =>
    obtain ⟨separator, more, alignments, -, -, -, rfl⟩ := Table.recognise_eq_some hs
    cases h
  | glossary =>
    obtain ⟨-, rfl⟩ := Glossary.recognise_eq_some hs
    cases h
  | list =>
    obtain ⟨marker, -, rfl⟩ := Listing.recognise_eq_some hs
    cases h
  | indentedCode =>
    obtain ⟨code, -, -, rfl⟩ := Fence.recogniseIndented_eq_some hs
    cases h
  | json =>
    obtain ⟨n, -, -, rfl⟩ := Data.recogniseJson_eq_some hs
    cases h
  | yaml =>
    obtain ⟨-, -, notes, rfl, -⟩ := Data.recogniseYaml_eq_some hs
    cases h

/-- So does the match that decides at a line, and then the line itself is no fence. -/
theorem fences_matchAt (number : Nat) {line : Text} (rest : List Text)
    (h : (matchAt structured number line rest).block.takesFences = false) :
    fences (line :: rest.take (matchAt structured number line rest).extra) = 0 := by
  have hline : Line.isFence line = false := by
    by_contra hfence
    have hfound : recognise structured .fencedCode number line rest = some _ :=
      if_pos (by simpa using hfence)
    rw [matchAt_of_fence hfound] at h
    cases h
  have hbehind : fences (rest.take (matchAt structured number line rest).extra) = 0 := by
    unfold matchAt at h ⊢
    cases hfound : (Shape.priority structured).findSome? fun s =>
        recognise structured s number line rest with
    | none => exact fences_continuation (number + 1) rest
    | some m =>
      rw [hfound] at h
      obtain ⟨s, -, hs⟩ := List.exists_of_findSome?_eq_some hfound
      by_cases hquote : s = .quote
      · subst hquote
        obtain ⟨text, -, rfl⟩ := Option.map_eq_some_iff.mp hs
        exact fences_quoted rest
      · rw [recognise_of_ne_quote structured hquote] at hs
        exact fences_of_recogniser hs h
  rw [fences_cons hline, hbehind]

/-- The line behind the lines that are no fences is one. -/
theorem fences_closing {lines : List Text}
    (h : (lines.takeWhile fun l => !Line.isFence l).length < lines.length) :
    fences (lines.take ((lines.takeWhile fun l => !Line.isFence l).length + 1)) = 1 := by
  induction lines with
  | nil => cases h
  | cons line r ih =>
    by_cases hline : Line.isFence line = true
    · simp [hline, fences]
    · simp only [hline, Bool.not_false, List.takeWhile_cons_of_pos, List.length_cons,
        Nat.add_lt_add_iff_right] at h
      simp only [hline, Bool.not_false, List.takeWhile_cons_of_pos, List.length_cons,
        List.take_succ_cons]
      rw [fences_cons (by simpa using hline), ih h]

/-- Fenced code that is closed has two fences. -/
theorem fences_matchAt_of_isFence (number : Nat) {line : Text} {rest : List Text}
    (hline : Line.isFence line = true)
    (hclosed : (matchAt structured number line rest).extra < rest.length) :
    fences (line :: rest.take (matchAt structured number line rest).extra) = 2 := by
  have hfound : recognise structured .fencedCode number line rest = some _ := if_pos hline
  rw [matchAt_of_fence hfound] at hclosed ⊢
  dsimp only at hclosed ⊢
  have hend : (rest.takeWhile fun l => !Line.isFence l).length < rest.length := by omega
  rw [if_pos hend, fences_cons_of_isFence hline, fences_closing hend]

/-- The lines of a block. -/
def Placed.linesOf (p : Placed) (lines : List Text) : List Text :=
  (lines.drop p.first).take (p.stop - p.first)

/-- Whether a block that may take fences has only its own: it starts with a fence or has none. -/
def Placed.OwnsFences (p : Placed) (lines : List Text) : Prop :=
  p.block.takesFences = true →
    (p.linesOf lines).head?.any Line.isFence = true ∨ fences (p.linesOf lines) = 0

instance (p : Placed) (lines : List Text) : Decidable (p.OwnsFences lines) :=
  inferInstanceAs (Decidable (_ → _ ∨ _))

/-- A block that is not the last one has an even number of fences if it has only its own. -/
theorem even_fences_matchAt (number : Nat) {line : Text} {rest : List Text}
    (hclosed : (matchAt structured number line rest).extra < rest.length)
    (h : (matchAt structured number line rest).block.takesFences = true →
      Line.isFence line = true ∨
        fences (line :: rest.take (matchAt structured number line rest).extra) = 0) :
    Even (fences (line :: rest.take (matchAt structured number line rest).extra)) := by
  by_cases htakes : (matchAt structured number line rest).block.takesFences = true
  · rcases h htakes with hline | hzero
    · rw [fences_matchAt_of_isFence number hline hclosed]
      exact ⟨1, rfl⟩
    · rw [hzero]
      exact Even.zero
  · rw [fences_matchAt number rest (by simpa using htakes)]
    exact Even.zero

/-- In front of a block stands an even number of fences if all blocks in front of it have only their
own. -/
theorem even_fences_of_mem_placedFrom {number : Nat} {behind : List Text} {p : Placed}
    (hbehind : lines.drop number = behind) (heven : Even (fences (lines.take number)))
    (hp : p ∈ placedFrom structured number behind)
    (h : ∀ q ∈ placedFrom structured number behind, q.first < p.first → q.OwnsFences lines) :
    Even (fences (lines.take p.first)) := by
  fun_induction placedFrom structured number behind with
  | case1 => cases hp
  | case2 number line rest hline ih =>
    have hnext : lines.drop (number + 1) = rest := by
      rw [← List.drop_drop, hbehind, List.drop_succ_cons, List.drop_zero]
    refine ih hnext ?_ hp h
    rw [List.take_add, hbehind, List.take_succ_cons, List.take_zero, fences_append,
      fences_cons (isFence_of_allBlank hline)]
    exact heven
  | case3 number line rest hline m ih =>
    rcases List.mem_cons.mp hp with rfl | hp
    · exact heven
    obtain ⟨i, l, r, hdrop, -, hfirst, -⟩ := matchAt_of_mem_placedFrom hp
    -- Fenced code that is not closed takes all lines, and no block follows it.
    have hclosed : m.extra < rest.length := by
      by_contra hle
      rw [List.drop_drop, List.drop_eq_nil_of_le (by omega)] at hdrop
      cases hdrop
    have hnext : lines.drop (m.stop number) = rest.drop m.extra := by
      rw [Match.stop, Nat.add_assoc, ← List.drop_drop, hbehind, List.drop_succ_cons]
    refine ih hnext ?_ hp fun q hq => h q (List.mem_cons_of_mem _ hq)
    have hlines : Placed.linesOf ⟨m.block, number, m.stop number⟩ lines =
        line :: rest.take m.extra := by
      rw [Placed.linesOf, hbehind, Match.stop, Nat.add_assoc, Nat.add_sub_cancel_left,
        List.take_succ_cons]
    have howns := h _ List.mem_cons_self (by simp only [Match.stop] at hfirst ⊢; omega)
    rw [Placed.OwnsFences, hlines] at howns
    have htaken : lines.take (m.stop number) = lines.take number ++ line :: rest.take m.extra := by
      rw [Match.stop, Nat.add_assoc, List.take_add, hbehind, List.take_succ_cons]
    rw [htaken, fences_append]
    exact heven.add (even_fences_matchAt number hclosed howns)

/-! ### Definitions in fenced code -/

/-- **Definitions in fenced code.** Extraction keeps the lines at which nothing is taken out, and
makes definitions of the others. Of a block of fenced code all lines are kept exactly if an even
number of fences stand in front of it, or if none of its lines looks like a definition. The number
is even if no other block in front has a fence among its lines. -/
theorem fenced_kept_iff (structured : Bool) (t : Text) {p : Placed}
    (h : p.IsFenced structured (Text.lines t)) :
    (∀ s : References, s.extract t =
      (Text.unlines (References.kept false (Text.lines t)),
        (taken false (Text.lines t)).reduceOption.foldl References.define s)) ∧
    ((∀ j, p.Covers j → (taken false (Text.lines t))[j]? = some none) ↔
      Even (fences ((Text.lines t).take p.first)) ∨
        ∀ j l, p.Covers j → (Text.lines t)[j]? = some l → References.definitionLine? l = none) ∧
    ((∀ q ∈ placed structured (Text.lines t), q.first < p.first → q.OwnsFences (Text.lines t)) →
      Even (fences ((Text.lines t).take p.first))) := by
  refine ⟨fun s => ?_, ⟨fun hkept => ?_, fun hsafe j hj => ?_⟩, fun howns => ?_⟩
  · rw [References.extract, References.extractLines_eq]
  · by_cases heven : Even (fences ((Text.lines t).take p.first))
    · exact .inl heven
    · exact .inr fun j l hj hl => ((h.getElem?_taken_iff hj hl).mp (hkept j hj)).resolve_left heven
  · have hl := List.getElem?_eq_getElem (Nat.lt_of_lt_of_le hj.2 h.stop_le)
    exact (h.getElem?_taken_iff hj hl).mpr (hsafe.imp_right fun hnone => hnone j _ hj hl)
  · exact even_fences_of_mem_placedFrom rfl Even.zero h.mem howns

/-- Behind a list without fences the lines of fenced code are kept, also one that looks like a
definition. -/
theorem fenced_kept_iff_behind_list :
    let t := "- a\n\n\x60\x60\x60\n[b]: c\n\x60\x60\x60".toList
    ∃ p : Placed, p.first = 2 ∧ p.stop = 5 ∧ p.IsFenced true (Text.lines t) ∧
      (∀ q ∈ placed true (Text.lines t), q.first < p.first → q.OwnsFences (Text.lines t)) ∧
      ∀ j, p.Covers j → (taken false (Text.lines t))[j]? = some none := by
  intro t
  obtain ⟨p, hp, hfirst, hstop⟩ : ∃ p ∈ placed true (Text.lines t), p.first = 2 ∧ p.stop = 5 := by
    decide +kernel
  have hfenced : p.IsFenced true (Text.lines t) := by
    refine ⟨hp, ?_⟩
    rw [hfirst]
    exact ⟨_, _, _, rfl, rfl⟩
  have howns :
      ∀ q ∈ placed true (Text.lines t), q.first < p.first → q.OwnsFences (Text.lines t) := by
    rw [hfirst]
    decide +kernel
  obtain ⟨-, hiff, heven⟩ := fenced_kept_iff true t hfenced
  exact ⟨p, hfirst, hstop, hfenced, howns, hiff.mpr (.inl (heven howns))⟩

/-- A list may take a fence. Then a definition is taken out of the fenced code behind it. -/
theorem fenced_definition_taken_behind_list :
    let t := "- a\n  \x60\x60\x60\n\n\x60\x60\x60\n[b]: c\n\x60\x60\x60".toList
    (∃ p : Placed, p.IsFenced true (Text.lines t) ∧ p.Covers 4 ∧
      (taken false (Text.lines t))[4]? = some (some (.link "b".toList "c".toList none))) ∧
    References.empty.extract t =
      ("- a\n  \x60\x60\x60\n\n\x60\x60\x60\n\x60\x60\x60".toList,
        ⟨[("b".toList, ⟨"c".toList, none⟩)], [], 1⟩) := by
  intro t
  refine ⟨?_, by decide⟩
  obtain ⟨p, hp, hfirst, hstop⟩ : ∃ p ∈ placed true (Text.lines t), p.first = 3 ∧ p.stop = 6 := by
    decide +kernel
  refine ⟨p, ⟨hp, ?_⟩, ⟨by omega, by omega⟩, by decide⟩
  rw [hfirst]
  exact ⟨_, _, _, rfl, rfl⟩

end Document

end Markdown
