import Markdown.Proofs.Ambient
import Markdown.Proofs.Locality

/-!
# A blank line separates blocks

Lines in front of a blank line and lines behind it are split on their own, unless the last block in
front goes on over the blank line. What the splitting reports is the same too, the numbers of the
lines behind the blank line included (`Document.blocksFrom_append_blank`); and these numbers only show
in the log (`Document.unlogged_blocksFrom`), so the answers are put together from those of the parts.
-/

namespace Markdown

/-! ### Without the log -/

/-- A line for the log. -/
def Note.isLogged : Note → Bool
  | .logged _ => true
  | _ => false

/-- Notes without the lines for the log. -/
def Note.unlogged (ns : List Note) : List Note :=
  ns.filter fun n => !n.isLogged

namespace Report

variable {α β : Type}

/-- A report without the lines for the log. -/
def unlogged (x : Report α) : Report α :=
  ⟨x.value, Note.unlogged x.notes⟩

@[simp] theorem unlogged_pure (a : α) : (pure a : Report α).unlogged = pure a := rfl

theorem unlogged_bind (x : Report α) (f : α → Report β) :
    (x >>= f).unlogged = (do
      let a ← x.unlogged
      (f a).unlogged) := by
  show (⟨_, _⟩ : Report β) = ⟨_, _⟩
  rw [notes_bind, Note.unlogged, List.filter_append]
  rfl

theorem firstFault_unlogged (ns : List Note) : firstFault (Note.unlogged ns) = firstFault ns := by
  induction ns with
  | nil => rfl
  | cons n ns ih =>
    cases n with
    | failed f => rfl
    | _ => exact ih

/-- The log decides nothing. -/
theorem answer_unlogged (x : Report α) : x.unlogged.answer = x.answer := by
  unfold answer
  rw [show x.unlogged.notes = Note.unlogged x.notes from rfl, firstFault_unlogged]
  rfl

end Report

/-- A match without the lines for the log. -/
def Match.unlogged (m : Match) : Match :=
  { m with notes := Note.unlogged m.notes }

variable (n n' : Nat) (line : Text) (rest : List Text)

theorem Data.unlogged_recogniseJson :
    (recogniseJson n line rest).map Match.unlogged =
      (recogniseJson n' line rest).map Match.unlogged := by
  unfold recogniseJson
  split
  · split
    · split
      · rfl
      · dsimp only
        split <;> rfl
    · rfl
  · rfl

theorem Data.unlogged_recogniseYaml :
    (recogniseYaml n line rest).map Match.unlogged =
      (recogniseYaml n' line rest).map Match.unlogged := by
  unfold recogniseYaml
  split
  · dsimp only
    split
    · rfl
    · split <;> rfl
  · rfl

theorem Shape.unlogged_recogniser (s : Shape) :
    (s.recogniser n line rest).map Match.unlogged =
      (s.recogniser n' line rest).map Match.unlogged := by
  cases s with
  | json => exact Data.unlogged_recogniseJson n n' line rest
  | yaml => exact Data.unlogged_recogniseYaml n n' line rest
  | _ => rfl

namespace Paragraph

theorem unlogged_interrupts :
    (interrupts n line rest).unlogged = (interrupts n' line rest).unlogged := by
  have hjson := Data.unlogged_recogniseJson n n' line rest
  unfold interrupts
  dsimp only
  split
  · rfl
  · split
    · rfl
    · rfl
    · split
      · rfl
      · split
        · cases h : Data.recogniseJson n line rest with
          | none =>
            rw [h, Option.map_none, eq_comm, Option.map_eq_none_iff] at hjson
            rw [hjson]
          | some m =>
            obtain ⟨m', hm', heq⟩ := Option.map_eq_some_iff.mp (hjson.symm.trans (by rw [h]; rfl))
            rw [hm']
            exact congrArg (fun k : Match => (⟨true, k.notes⟩ : Report Bool)) heq.symm
        · rfl

theorem unlogged_continuation (lines : List Text) :
    (continuation n lines).unlogged = (continuation n' lines).unlogged := by
  induction lines generalizing n n' with
  | nil => rfl
  | cons line rest ih =>
    rw [continuation, continuation]
    split
    · rfl
    · rw [Report.unlogged_bind, Report.unlogged_bind, unlogged_interrupts n n']
      refine Report.bind_congr ?_
      split
      · rfl
      · rw [Report.unlogged_bind, Report.unlogged_bind, ih (n + 1) (n' + 1)]

theorem unlogged_startingAt :
    (startingAt n line rest).unlogged = (startingAt n' line rest).unlogged :=
  congrArg (fun more : Report (List Text × Bool) =>
      (⟨.paragraph (Text.unlines (line :: more.value.1)),
        more.value.1.length + (if more.value.2 then 1 else 0), more.notes⟩ : Match))
    (unlogged_continuation (n + 1) (n' + 1) rest)

end Paragraph

namespace Document

theorem unlogged_recognise (structured : Bool) (shape : Shape) :
    (recognise structured shape n line rest).map Match.unlogged =
      (recognise structured shape n' line rest).map Match.unlogged := by
  by_cases h : shape = .quote
  · subst h
    rfl
  · rw [recognise_of_ne_quote structured h]
    exact shape.unlogged_recogniser n n' line rest

theorem unlogged_matchAt (structured : Bool) :
    (matchAt structured n line rest).unlogged = (matchAt structured n' line rest).unlogged := by
  unfold matchAt
  rw [← Option.getD_map Match.unlogged, ← Option.getD_map Match.unlogged, List.map_findSome?,
    List.map_findSome?, Paragraph.unlogged_startingAt n n']
  congr 2
  funext s
  exact unlogged_recognise n n' line rest structured s

/-- The number of the first line shows in the log only. -/
theorem unlogged_blocksFrom (structured : Bool) (lines : List Text) :
    (blocksFrom structured n lines).unlogged = (blocksFrom structured n' lines).unlogged := by
  induction hn : lines.length using Nat.strongRecOn generalizing n n' lines with
  | ind k ih =>
    cases lines with
    | nil => simp
    | cons line rest =>
      simp only [List.length_cons] at hn
      by_cases hline : Text.allBlank line = true
      · rw [blocksFrom_blank _ _ _ hline, blocksFrom_blank _ _ _ hline]
        exact ih _ (by omega) _ _ rest rfl
      · rw [Bool.not_eq_true] at hline
        have hmatch := unlogged_matchAt n n' line rest structured
        have hextra : (matchAt structured n line rest).extra =
            (matchAt structured n' line rest).extra := by
          have h := congrArg Match.extra hmatch
          exact h
        have hreport : (matchAt structured n line rest).report.unlogged =
            (matchAt structured n' line rest).report.unlogged := by
          have h := congrArg Match.report hmatch
          exact h
        rw [blocksFrom_cons _ _ _ hline, blocksFrom_cons _ _ _ hline]
        simp only [Report.unlogged_bind]
        rw [hreport, hextra]
        refine Report.bind_congr ?_
        rw [ih _ (by rw [List.length_drop]; omega) _ (n' + (matchAt structured n' line rest).extra + 1)
          (rest.drop (matchAt structured n' line rest).extra) rfl]

/-! ### In front of the blank line and behind it -/

variable {structured : Bool}

theorem all_getLast?_of_cons {α : Type} {p : α → Bool} {x : α} {xs : List α}
    (h : (x :: xs).getLast?.all p = true) : xs.getLast?.all p = true := by
  cases xs with
  | nil => rfl
  | cons y ys => rwa [List.getLast?_cons_cons] at h

/-- A match is settled if its block ends at a blank line or is not the last one. -/
theorem isSettled_matchAt
    (h : (blocksFrom structured n (line :: rest)).value.getLast?.all Block.endsAtBlank = true)
    (hline : Text.allBlank line = false) :
    (matchAt structured n line rest).IsSettled rest := by
  rw [blocksFrom_cons _ _ _ hline] at h
  simp only [Report.value_bind, Report.value_pure, List.getLast?_cons, Option.all_some] at h
  by_cases hblank : ∀ l ∈ rest.drop (matchAt structured n line rest).extra, Text.allBlank l = true
  · rw [blocksFrom_of_allBlank hblank] at h
    exact .inl h
  · simp only [not_forall, Bool.not_eq_true] at hblank
    obtain ⟨l, hl, hvisible⟩ := hblank
    exact .inr ⟨l, hl, hvisible⟩

/-- Lines in front of a blank line and lines behind it are split on their own, and reported one after
another. -/
theorem blocksFrom_append_blank (a b : List Text)
    (ha : (blocksFrom structured n a).value.getLast?.all Block.endsAtBlank = true) :
    blocksFrom structured n (a ++ [] :: b) = (do
      let x ← blocksFrom structured n a
      let y ← blocksFrom structured (n + a.length + 1) b
      pure (x ++ y)) := by
  induction hn : a.length using Nat.strongRecOn generalizing n a with
  | ind k ih =>
    cases a with
    | nil =>
      rw [List.nil_append, blocksFrom_blank _ _ _ (by decide), ← hn]
      simp
    | cons line rest =>
      simp only [List.length_cons] at hn
      by_cases hline : Text.allBlank line = true
      · rw [blocksFrom_blank _ _ _ hline] at ha ⊢
        rw [List.cons_append, blocksFrom_blank _ _ _ hline, ih _ (by omega) _ _ ha rfl, ← hn,
          Nat.add_right_comm n 1, Nat.add_assoc n]
      · rw [Bool.not_eq_true] at hline
        have hle := extra_matchAt_le structured n line rest
        have hsettled := isSettled_matchAt n line rest ha hline
        obtain ⟨extra, hmatch, hextra⟩ := matchAt_append structured n hline hsettled b
        rw [List.cons_append, blocksFrom_cons _ _ _ hline, blocksFrom_cons _ _ _ hline, hmatch]
        rw [blocksFrom_cons _ _ _ hline] at ha
        generalize matchAt structured n line rest = m at *
        have hmore := all_getLast?_of_cons ha
        dsimp only
        rw [bind_assoc]
        refine Report.bind_congr ?_
        rw [bind_assoc]
        rcases hextra with rfl | ⟨hall, rfl⟩
        · have htail := ih _ (by rw [List.length_drop]; omega) _ _ hmore rfl
          rw [List.drop_append_of_le_length hle, htail, bind_assoc]
          refine Report.bind_congr ?_
          rw [bind_assoc, pure_bind, List.length_drop]
          congr 2
          omega
        · rw [hall, List.drop_length, blocksFrom_nil, pure_bind, pure_bind]
          have hdrop : (rest ++ [] :: b).drop (rest.length + 1) = b := by
            rw [← List.drop_drop, List.drop_left]
            rfl
          rw [hdrop, ← hn, Nat.add_assoc n]
          rfl

/-- **A blank line separates blocks.** Let the last block of the lines in front, if there is one, be
neither a list nor a definition list nor code without data. Then splitting these lines, a blank line
and any others gives the blocks of the lines in front and behind them those of the others, each
split on its own; and a fault in either is the fault of the whole, one in front going first. -/
theorem blocks_append_blank (structured : Bool) (a b : List Text)
    (ha : (blocks structured a).value.getLast?.all Block.endsAtBlank = true) :
    (blocks structured (a ++ [] :: b)).answer = (do
      let x ← (blocks structured a).answer
      let y ← (blocks structured b).answer
      pure (x ++ y)) := by
  have hnumber : (blocksFrom structured (0 + a.length + 1) b).answer = (blocks structured b).answer := by
    rw [← Report.answer_unlogged, unlogged_blocksFrom _ 0, Report.answer_unlogged]
    rfl
  unfold blocks at ha ⊢
  rw [blocksFrom_append_blank 0 a b ha]
  simp only [Report.answer_bind, Report.answer_pure, hnumber]
  rfl

/-- A paragraph behind a list: it is the list that would go on, but the paragraph ends the lines in
front. -/
theorem blocks_append_blank_behind_list :
    let a := ["- a".toList, [], "b".toList]
    let b := ["- c".toList, "# d".toList]
    (blocks true a).value.getLast?.all Block.endsAtBlank = true ∧
    (blocks true (a ++ [] :: b)).answer = (do
      let x ← (blocks true a).answer
      let y ← (blocks true b).answer
      pure (x ++ y)) := by
  have ha : (blocks true ["- a".toList, [], "b".toList]).value.getLast?.all Block.endsAtBlank = true := by
    decide +kernel
  exact ⟨ha, blocks_append_blank true _ _ ha⟩

end Document

end Markdown
