import Markdown.Proofs.Search
import Markdown.Proofs.Shapes
import Markdown.Proofs.Tiling

/-!
# Recognisers do not see past a blank line

Most blocks end in front of a blank line at the latest. Lists, definition lists and code without data
go on over blank lines, but only if they find something behind them. So what a recogniser finds in some
lines stays the same with a blank line and others behind them, unless such a block reaches their end.
-/

namespace Markdown

/-- A block of a kind that ends in front of a blank line at the latest. -/
def Block.endsAtBlank : Block → Bool
  | .list .. => false
  | .definitions _ => false
  | .code _ _ detected => detected
  | _ => true

/-- A line that is not blank is left. -/
def HasVisible (lines : List Text) : Prop :=
  ∃ l ∈ lines, Text.allBlank l = false

/-- A match among some lines that does not depend on what follows them: its block ends in front of a
blank line, or a line that is not blank is left. -/
def Match.IsSettled (m : Match) (rest : List Text) : Prop :=
  m.block.endsAtBlank = true ∨ HasVisible (rest.drop m.extra)

/-- A recogniser whose answer does not depend on what stands behind a blank line, once it is
settled. -/
structure Recogniser.IsLocal (r : Recogniser) : Prop where
  /-- It finds nothing more. -/
  none : ∀ number line rest tail, Text.allBlank line = false → r number line rest = none →
    r number line (rest ++ [] :: tail) = none
  /-- It finds the same, if that is settled. -/
  some : ∀ number line rest tail m, Text.allBlank line = false → r number line rest = some m →
    ∃ m', r number line (rest ++ [] :: tail) = some m' ∧ (m.IsSettled rest → m' = m)

/-- A recogniser that answers the same in any case. -/
theorem Recogniser.isLocal_of_eq {r : Recogniser}
    (h : ∀ number line rest tail, Text.allBlank line = false →
      r number line (rest ++ [] :: tail) = r number line rest) : r.IsLocal where
  none number line rest tail hline hnone := (h number line rest tail hline).trans hnone
  some number line rest tail m hline hsome :=
    ⟨m, (h number line rest tail hline).trans hsome, fun _ => rfl⟩

variable {number : Nat} {line : Text} {lines rest tail : List Text} {m : Match}

/-! ### Lines up to a blank one -/

theorem takeWhile_append_blank {p : Text → Bool} (hp : p [] = false) (lines tail : List Text) :
    (lines ++ [] :: tail).takeWhile p = lines.takeWhile p := by
  rw [List.takeWhile_append]
  split
  · next hall =>
    rw [(List.takeWhile_prefix p).eq_of_length hall]
    simp [hp]
  · rfl

/-- Lines that end before the last visible one do not depend on what follows. -/
theorem takeWhile_append_of_lt {p : Text → Bool} (h : (lines.takeWhile p).length < lines.length)
    (tail : List Text) : (lines ++ tail).takeWhile p = lines.takeWhile p := by
  rw [List.takeWhile_append, if_neg (by omega)]

theorem HasVisible.lt_length {n : Nat} (h : HasVisible (lines.drop n)) : n < lines.length := by
  obtain ⟨l, hl, -⟩ := h
  have hpos := List.length_pos_of_mem hl
  rw [List.length_drop] at hpos
  omega

theorem HasVisible.of_drop {n : Nat} (h : HasVisible (lines.drop n)) : HasVisible lines := by
  obtain ⟨l, hl, hvisible⟩ := h
  exact ⟨l, List.mem_of_mem_drop hl, hvisible⟩

theorem HasVisible.of_cons (h : HasVisible (line :: rest)) (hline : Text.allBlank line = true) :
    HasVisible rest := by
  obtain ⟨l, hl, hvisible⟩ := h
  rcases List.mem_cons.mp hl with rfl | hl
  · rw [hline] at hvisible
    cases hvisible
  · exact ⟨l, hl, hvisible⟩

/-- Blank lines in front of a visible one. -/
theorem HasVisible.takeWhile_append (h : HasVisible lines) (tail : List Text) :
    (lines ++ tail).takeWhile Text.allBlank = lines.takeWhile Text.allBlank := by
  refine takeWhile_append_of_lt ?_ tail
  obtain ⟨l, hl, hvisible⟩ := h
  refine Nat.lt_of_le_of_ne (List.takeWhile_prefix _).length_le fun hlength => ?_
  rw [← (List.takeWhile_prefix Text.allBlank).eq_of_length hlength] at hl
  rw [List.mem_takeWhile_imp hl] at hvisible
  cases hvisible

/-! ### Code -/

theorem Fence.isLocal_recognise : Recogniser.IsLocal Fence.recognise where
  none number line rest tail _ hnone := by
    unfold Fence.recognise at hnone ⊢
    split at hnone
    · cases hnone
    · next hfence => rw [if_neg hfence]
  some number line rest tail m _ hsome := by
    obtain ⟨hfence, rfl⟩ := Fence.recognise_eq_some hsome
    refine ⟨_, if_pos hfence, fun hsettled => ?_⟩
    rcases hsettled with hend | hvisible
    · cases hend
    · have hlt := hvisible.lt_length
      dsimp only at hlt
      have hclosed : (rest.takeWhile fun l => !Line.isFence l).length < rest.length := by
        have hle := (List.takeWhile_prefix (l := rest) fun l => !Line.isFence l).length_le
        omega
      have hlonger : (rest.takeWhile fun l => !Line.isFence l).length < (rest ++ [] :: tail).length := by
        rw [List.length_append]
        omega
      rw [takeWhile_append_of_lt hclosed, if_pos hclosed, if_pos hlonger]

theorem Fence.indentedBody_append (h : (indentedBody lines).length < lines.length)
    (tail : List Text) : indentedBody (lines ++ tail) = indentedBody lines := by
  induction lines with
  | nil => cases h
  | cons l r ih =>
    rw [List.cons_append]
    unfold indentedBody at h ⊢
    split
    · next code hcode =>
      simp only [hcode, List.length_cons] at h
      rw [ih (by omega)]
    · rfl

/-- Indented code that is not blank shows something. -/
theorem Fence.dropBlankEnd_ne_nil {code : Text} (hline : Text.allBlank line = false)
    (hcode : unindent? line = some code) (body : List Text) : dropBlankEnd (code :: body) ≠ [] := by
  have hvisible : Text.allBlank code = false := by
    unfold unindent? at hcode
    split at hcode
    · obtain rfl := Option.some.inj hcode
      simpa [Text.allBlank, show Text.isBlank ' ' = true by decide] using hline
    · obtain rfl := Option.some.inj hcode
      simpa [Text.allBlank, show Text.isBlank '\t' = true by decide] using hline
    · cases hcode
  intro hnil
  have hall := List.dropWhile_eq_nil_iff.mp (List.reverse_eq_nil_iff.mp hnil) code (by simp)
  rw [hvisible] at hall
  cases hall

theorem Fence.isLocal_recogniseIndented : Recogniser.IsLocal Fence.recogniseIndented where
  none number line rest tail hline hnone := by
    unfold Fence.recogniseIndented at hnone ⊢
    cases hcode : unindent? line with
    | none => rfl
    | some code =>
      simp only [hcode] at hnone
      have hshown := Fence.dropBlankEnd_ne_nil hline hcode (indentedBody rest)
      simp [hshown] at hnone
  some number line rest tail m hline hsome := by
    obtain ⟨code, hcode, -, rfl⟩ := Fence.recogniseIndented_eq_some hsome
    have hshown := Fence.dropBlankEnd_ne_nil hline hcode (indentedBody (rest ++ [] :: tail))
    refine ⟨⟨.code [] (Text.unlines (dropBlankEnd (code :: indentedBody (rest ++ [] :: tail)))) false,
      (indentedBody (rest ++ [] :: tail)).length, []⟩, ?_, fun hsettled => ?_⟩
    · unfold Fence.recogniseIndented
      simp [hcode, hshown]
    · rcases hsettled with hend | hvisible
      · cases hend
      · rw [indentedBody_append hvisible.lt_length]

/-! ### Headings, thematic breaks and tables -/

theorem Heading.isLocal_recognise : Recogniser.IsLocal Heading.recognise :=
  Recogniser.isLocal_of_eq fun _ _ _ _ _ => rfl

theorem Heading.isLocal_recogniseUnderlined : Recogniser.IsLocal Heading.recogniseUnderlined := by
  refine Recogniser.isLocal_of_eq fun number line rest tail _ => ?_
  cases rest with
  | nil => simp [recogniseUnderlined, underlineLevel?]
  | cons next more => rfl

theorem Heading.isLocal_recogniseRule : Recogniser.IsLocal Heading.recogniseRule :=
  Recogniser.isLocal_of_eq fun _ _ _ _ _ => rfl

theorem Table.isLocal_recognise : Recogniser.IsLocal Table.recognise := by
  refine Recogniser.isLocal_of_eq fun number line rest tail _ => ?_
  cases rest with
  | nil => simp [recognise, Row.alignments?]
  | cons separator more =>
    rw [List.cons_append, recognise, recognise, takeWhile_append_blank (by decide)]

/-! ### Definition lists -/

namespace Glossary

theorem startsEntry_append (lines tail : List Text) :
    startsEntry (lines ++ [] :: tail) = startsEntry lines := by
  match lines with
  | [] =>
    cases tail with
    | nil => rfl
    | cons l r => rfl
  | [term] => simp [startsEntry, meaning?]
  | term :: next :: more => rfl

theorem meanings_append (lines tail : List Text) :
    meanings (lines ++ [] :: tail) = meanings lines := by
  induction lines with
  | nil => rfl
  | cons l r ih =>
    rw [List.cons_append, meanings, meanings, ih]

/-- The entries stay the same if a visible line is left behind them. -/
theorem entries_append (h : HasVisible (lines.drop (entries lines).2)) (tail : List Text) :
    entries (lines ++ [] :: tail) = entries lines := by
  fun_induction entries lines with
  | case1 =>
    obtain ⟨l, hl, -⟩ := h
    cases hl
  | case2 line rest hstart ms more ih =>
    have hle : ms.length ≤ rest.length := length_meanings_le rest
    have hmore : HasVisible ((rest.drop ms.length).drop more.2) := by
      rw [List.drop_drop]
      rwa [show ms.length + 1 + more.2 = ms.length + more.2 + 1 by omega] at h
    have hrest : entries ((rest ++ [] :: tail).drop ms.length) = more := by
      rw [List.drop_append_of_le_length hle]
      exact ih hmore
    rw [List.cons_append, entries, ← List.cons_append, startsEntry_append, if_pos hstart,
      meanings_append]
    dsimp only
    rw [hrest]
  | case3 line rest hstart hblank blanks hnext more ih =>
    have hle : blanks ≤ rest.length := (List.takeWhile_sublist Text.allBlank).length_le
    have hmore : HasVisible ((rest.drop blanks).drop more.2) := by
      rw [List.drop_drop]
      rwa [show blanks + 1 + more.2 = blanks + more.2 + 1 by omega] at h
    have hblanks : (rest ++ [] :: tail).takeWhile Text.allBlank = rest.takeWhile Text.allBlank :=
      (HasVisible.of_drop (HasVisible.of_drop hmore)).takeWhile_append _
    have hdrop : (rest ++ [] :: tail).drop blanks = rest.drop blanks ++ [] :: tail :=
      List.drop_append_of_le_length hle
    rw [List.cons_append, entries, ← List.cons_append, startsEntry_append, if_neg hstart,
      if_pos hblank, hblanks]
    dsimp only
    rw [hdrop, startsEntry_append, if_pos hnext, ih hmore]
  | case4 line rest hstart hblank blanks hnext =>
    have hrest : HasVisible rest := HasVisible.of_cons h hblank
    have hle : blanks ≤ rest.length := (List.takeWhile_sublist Text.allBlank).length_le
    have hdrop : (rest ++ [] :: tail).drop blanks = rest.drop blanks ++ [] :: tail :=
      List.drop_append_of_le_length hle
    rw [List.cons_append, entries, ← List.cons_append, startsEntry_append, if_neg hstart,
      if_pos hblank, hrest.takeWhile_append]
    dsimp only
    rw [hdrop, startsEntry_append, if_neg hnext]
  | case5 line rest hstart hblank =>
    rw [List.cons_append, entries, ← List.cons_append, startsEntry_append, if_neg hstart,
      if_neg hblank]

theorem isLocal_recognise : Recogniser.IsLocal recognise where
  none number line rest tail _ hnone := by
    unfold recognise at hnone ⊢
    split at hnone
    · cases hnone
    · next hstart => rw [if_neg (by rwa [← List.cons_append, startsEntry_append])]
  some number line rest tail m _ hsome := by
    obtain ⟨hstart, rfl⟩ := recognise_eq_some hsome
    have hstart' : startsEntry (line :: (rest ++ [] :: tail)) = true := by
      rwa [← List.cons_append, startsEntry_append]
    refine ⟨_, if_pos hstart', fun hsettled => ?_⟩
    rcases hsettled with hend | hvisible
    · cases hend
    · have hpos := entries_taken_pos hstart
      have hdrop : (line :: rest).drop (entries (line :: rest)).2 =
          rest.drop ((entries (line :: rest)).2 - 1) := by
        obtain ⟨k, hk⟩ := Nat.exists_eq_add_one.mpr hpos
        rw [hk]
        rfl
      dsimp only at hvisible
      rw [← hdrop] at hvisible
      rw [← List.cons_append, entries_append hvisible]

end Glossary

/-! ### Lists -/

namespace Listing

variable {base : Nat} {ordered : Bool}

theorem resumesAfter?_append (h : HasVisible rest) (tail : List Text) :
    resumesAfter? base ordered (rest ++ tail) = resumesAfter? base ordered rest := by
  have hle := (List.takeWhile_prefix (l := rest) Text.allBlank).length_le
  unfold resumesAfter?
  rw [h.takeWhile_append]
  dsimp only
  rw [List.drop_append_of_le_length hle]
  cases hdrop : rest.drop (rest.takeWhile Text.allBlank).length with
  | nil =>
    obtain ⟨l, hl, hvisible⟩ := h
    have hall : rest = rest.takeWhile Text.allBlank :=
      ((List.takeWhile_prefix Text.allBlank).eq_of_length
        (Nat.le_antisymm hle (List.drop_eq_nil_iff.mp hdrop))).symm
    rw [hall] at hl
    rw [List.mem_takeWhile_imp hl] at hvisible
    cases hvisible
  | cons l r => rfl

/-- What the loop does with a line is settled by that line, unless it is blank. -/
theorem turn_append {fresh : Bool} (h : Text.allBlank line = false ∨ HasVisible rest)
    (tail : List Text) :
    turn base ordered fresh line (rest ++ tail) = turn base ordered fresh line rest := by
  unfold turn
  rcases h with hline | hvisible
  · simp [hline]
  · rw [resumesAfter?_append hvisible]

/-- The loop stops at the same line if a visible line is left there. -/
theorem collect_append {done : List Item}
    (h : HasVisible (lines.drop (collect base ordered done lines).value.taken)) (tail : List Text) :
    collect base ordered done (lines ++ tail) = collect base ordered done lines := by
  induction hn : lines.length using Nat.strongRecOn generalizing base ordered done lines with
  | ind n ih =>
    cases lines with
    | nil =>
      obtain ⟨l, hl, -⟩ := h
      simp at hl
    | cons line rest =>
      simp only [List.length_cons] at hn
      have hline : Text.allBlank line = false ∨ HasVisible rest := by
        by_cases hblank : Text.allBlank line = true
        · exact .inr (h.of_drop.of_cons hblank)
        · exact .inl (by simpa using hblank)
      rw [collect_cons] at h
      rw [List.cons_append, collect_cons, collect_cons, turn_append hline]
      cases hturn : turn base ordered done.isEmpty line rest with
      | stop => rfl
      | skip blanks =>
        have hle := (allBlank_of_turn_skip hturn).2.2
        simp only [hturn, Report.value_bind, Report.value_pure, Entries.behind, ← Nat.add_assoc,
          List.drop_succ_cons] at h
        rw [Nat.add_comm, ← List.drop_drop] at h
        dsimp only
        rw [List.drop_append_of_le_length hle,
          ih _ (by simp only [List.length_drop]; omega) h rfl]
      | nest m =>
        have hle := collect_taken_le (Line.indent line) m.ordered [item m] rest
        simp only [hturn, Report.value_bind, Report.value_pure, Entries.behind, ← Nat.add_assoc,
          List.drop_succ_cons] at h
        rw [Nat.add_comm, ← List.drop_drop] at h
        dsimp only
        rw [ih _ (by omega) h.of_drop rfl]
        refine Report.bind_congr (Report.bind_congr ?_)
        rw [List.drop_append_of_le_length hle,
          ih _ (by simp only [List.length_drop]; omega) h rfl]
      | entry m =>
        simp only [hturn, Report.value_bind, Report.value_pure, Entries.behind,
          List.drop_succ_cons] at h
        dsimp only
        rw [ih _ (by omega) h rfl]
      | continuation =>
        simp only [hturn, Report.value_bind, Report.value_pure, Entries.behind,
          List.drop_succ_cons] at h
        dsimp only
        rw [ih _ (by omega) h rfl]

theorem isLocal_recognise : Recogniser.IsLocal recognise where
  none number line rest tail _ hnone := by
    unfold recognise recogniseFrom at hnone ⊢
    cases hmarker : Line.marker? line with
    | none => rfl
    | some marker => simp [hmarker] at hnone
  some number line rest tail m _ hsome := by
    obtain ⟨marker, hmarker, rfl⟩ := recognise_eq_some hsome
    refine ⟨_, by simp [recognise, recogniseFrom, hmarker]; rfl, fun hsettled => ?_⟩
    rcases hsettled with hend | hvisible
    · cases hend
    · rw [collect_append hvisible]

end Listing

/-! ### Unfenced data -/

namespace Data

/-- Brackets that are open do not close behind a blank line. -/
theorem balancedLines_append {depth : Int} {inString : Bool} (h : lines ≠ [] ∨ 0 < depth)
    (tail : List Text) :
    balancedLines depth inString (lines ++ [] :: tail) = balancedLines depth inString lines := by
  induction lines generalizing depth inString with
  | nil =>
    have hdepth : 0 < depth := h.resolve_left fun hne => hne rfl
    simp [balancedLines, Text.allBlank, hdepth]
  | cons line r ih =>
    rw [List.cons_append, balancedLines, balancedLines]
    split
    · rfl
    · dsimp only
      split
      · rfl
      · next hopen => rw [ih (.inr (by omega))]

theorem recogniseJson_append (number : Nat) (line : Text) (rest tail : List Text) :
    recogniseJson number line (rest ++ [] :: tail) = recogniseJson number line rest := by
  unfold recogniseJson
  rw [← List.cons_append, balancedLines_append (.inl (List.cons_ne_nil _ _))]
  split
  · split
    · split
      · rfl
      · next n hn =>
        have hle := (balancedLines_mem hn).2
        rw [List.length_cons] at hle
        rw [List.take_append_of_le_length (by omega)]
    · rfl
  · rfl

theorem isLocal_recogniseJson : Recogniser.IsLocal recogniseJson :=
  Recogniser.isLocal_of_eq fun number line rest tail _ => recogniseJson_append number line rest tail

theorem isLocal_recogniseYaml : Recogniser.IsLocal recogniseYaml := by
  refine Recogniser.isLocal_of_eq fun number line rest tail _ => ?_
  unfold recogniseYaml
  rw [takeWhile_append_blank (by decide)]

end Data

/-! ### Quotes and paragraphs -/

theorem Quote.body_append (lines tail : List Text) : body (lines ++ [] :: tail) = body lines := by
  induction lines with
  | nil => rfl
  | cons l r ih => rw [List.cons_append, body, body, ih]

namespace Paragraph

theorem interrupts_append (number : Nat) (line : Text) (rest tail : List Text) :
    interrupts number line (rest ++ [] :: tail) = interrupts number line rest := by
  unfold interrupts
  rw [Data.recogniseJson_append]

/-- A paragraph that has reached the end of the lines takes the blank line there. -/
theorem continuation_append (number : Nat) (lines tail : List Text) :
    continuation number (lines ++ [] :: tail) = (do
      let more ← continuation number lines
      pure (more.1, more.2 || more.1.length == lines.length)) := by
  induction lines generalizing number with
  | nil => simp [continuation, Text.allBlank]
  | cons line rest ih =>
    rw [List.cons_append, continuation, continuation]
    split
    · simp
    · rw [interrupts_append, bind_assoc]
      refine Report.bind_congr ?_
      split
      · simp
      · rw [ih, bind_assoc, bind_assoc]
        refine Report.bind_congr ?_
        simp

theorem startingAt_append (number : Nat) (line : Text) (rest tail : List Text) :
    ∃ extra,
      startingAt number line (rest ++ [] :: tail) =
        { startingAt number line rest with extra } ∧
      (extra = (startingAt number line rest).extra ∨
        (startingAt number line rest).extra = rest.length ∧ extra = rest.length + 1) := by
  refine ⟨(startingAt number line (rest ++ [] :: tail)).extra, ?_, ?_⟩
  · unfold startingAt
    rw [continuation_append]
    simp
  · unfold startingAt
    rw [continuation_append]
    by_cases hblank : (continuation (number + 1) rest).value.2 = true
    · simp [hblank]
    · by_cases hall : (continuation (number + 1) rest).value.1.length = rest.length
      · simp [hall, hblank]
      · simp [hall, hblank]

end Paragraph

/-! ### All recognisers -/

theorem Shape.isLocal_recogniser (s : Shape) : s.recogniser.IsLocal := by
  cases s with
  | fencedCode => exact Fence.isLocal_recognise
  | hashHeading => exact Heading.isLocal_recognise
  | underlinedHeading => exact Heading.isLocal_recogniseUnderlined
  | rule => exact Heading.isLocal_recogniseRule
  | quote => exact Recogniser.isLocal_of_eq fun _ _ _ _ _ => rfl
  | table => exact Table.isLocal_recognise
  | glossary => exact Glossary.isLocal_recognise
  | list => exact Listing.isLocal_recognise
  | indentedCode => exact Fence.isLocal_recogniseIndented
  | json => exact Data.isLocal_recogniseJson
  | yaml => exact Data.isLocal_recogniseYaml

namespace Document

theorem isLocal_recognise (structured : Bool) (shape : Shape) :
    (recognise structured shape).IsLocal := by
  by_cases h : shape = .quote
  · subst h
    refine Recogniser.isLocal_of_eq fun number line rest tail _ => ?_
    simp only [recognise, Quote.body_append]
  · rw [recognise_of_ne_quote structured h]
    exact shape.isLocal_recogniser

/-- The recognisers are tried in the same order, and those in front of the one that answers find
nothing more. -/
theorem isLocal_findSome?_recognise (structured : Bool) (shapes : List Shape) :
    Recogniser.IsLocal fun number line rest =>
      shapes.findSome? fun s => recognise structured s number line rest := by
  induction shapes with
  | nil => exact Recogniser.isLocal_of_eq fun _ _ _ _ _ => rfl
  | cons s shapes ih =>
    have hs := isLocal_recognise structured s
    constructor
    · intro number line rest tail hline hnone
      rw [List.findSome?_cons] at hnone ⊢
      cases hfirst : recognise structured s number line rest with
      | some m => simp [hfirst] at hnone
      | none =>
        rw [hfirst] at hnone
        rw [hs.none number line rest tail hline hfirst]
        exact ih.none number line rest tail hline hnone
    · intro number line rest tail m hline hsome
      rw [List.findSome?_cons] at hsome ⊢
      cases hfirst : recognise structured s number line rest with
      | some m₁ =>
        rw [hfirst] at hsome
        obtain rfl := Option.some.inj hsome
        obtain ⟨m', hm', heq⟩ := hs.some number line rest tail m₁ hline hfirst
        exact ⟨m', by rw [hm'], heq⟩
      | none =>
        rw [hfirst] at hsome
        rw [hs.none number line rest tail hline hfirst]
        exact ih.some number line rest tail m hline hsome

/-- What decides at a line does not depend on what stands behind a blank line, once it is settled. A
paragraph that reaches the blank line takes it. -/
theorem matchAt_append (structured : Bool) (number : Nat) (hline : Text.allBlank line = false)
    (hsettled : (matchAt structured number line rest).IsSettled rest) (tail : List Text) :
    ∃ extra,
      matchAt structured number line (rest ++ [] :: tail) =
        { matchAt structured number line rest with extra } ∧
      (extra = (matchAt structured number line rest).extra ∨
        (matchAt structured number line rest).extra = rest.length ∧ extra = rest.length + 1) := by
  have hlocal := isLocal_findSome?_recognise structured (Shape.priority structured)
  unfold matchAt at hsettled ⊢
  cases hfound : (Shape.priority structured).findSome? fun s =>
      recognise structured s number line rest with
  | some m =>
    obtain ⟨m', hm', heq⟩ := hlocal.some number line rest tail m hline hfound
    rw [hfound] at hsettled
    rw [hm', heq hsettled]
    exact ⟨_, rfl, .inl rfl⟩
  | none =>
    rw [hlocal.none number line rest tail hline hfound, Option.getD_none, Option.getD_none]
    exact Paragraph.startingAt_append number line rest tail

end Document

end Markdown
