import Markdown.Proofs.Lines
import Markdown.Proofs.Undisturbed

/-!
# Runs of digits

How many decimal digits stand in a row in a text. Texts that are put together at characters other than
digits have no longer runs than their parts, and the same holds of texts with replacements that have no
digit at either end.
-/

namespace Markdown.Text

variable {n : Nat} {s t m : Text} {c : Char}

/-- At most `n` digits stand in a row, wherever in the text. -/
def RunsWithin (n : Nat) (t : Text) : Prop :=
  ∀ s, s <:+ t → (s.takeWhile isDigit).length ≤ n

/-- A text without longer runs of digits, and without a digit at its start and at its end. -/
structure Enclosed (n : Nat) (t : Text) : Prop where
  /-- There are no longer runs. -/
  runs : RunsWithin n t
  /-- It starts with another character. -/
  first : t.head?.any (!isDigit ·) = true
  /-- It ends with another character. -/
  last : t.getLast?.any (!isDigit ·) = true

theorem runsWithin_of_length_le (h : t.length ≤ n) : RunsWithin n t := by
  intro s hs
  have hprefix := (List.takeWhile_prefix isDigit (l := s)).length_le
  have hsuffix := hs.length_le
  omega

@[simp] theorem runsWithin_nil : RunsWithin n [] :=
  runsWithin_of_length_le (Nat.zero_le n)

theorem RunsWithin.takeWhile (h : RunsWithin n t) : (t.takeWhile isDigit).length ≤ n :=
  h t (List.suffix_refl t)

theorem runsWithin_cons_iff :
    RunsWithin n (c :: t) ↔ ((c :: t).takeWhile isDigit).length ≤ n ∧ RunsWithin n t := by
  constructor
  · exact fun h => ⟨h.takeWhile, fun s hs => h s (hs.trans (List.suffix_cons c t))⟩
  · rintro ⟨hwhole, ht⟩ s hs
    rcases List.suffix_cons_iff.mp hs with rfl | hs
    · exact hwhole
    · exact ht s hs

/-! ### Parts of a text -/

theorem RunsWithin.right (h : RunsWithin n (s ++ t)) : RunsWithin n t :=
  fun r hr => h r (hr.trans (List.suffix_append s t))

theorem RunsWithin.left (h : RunsWithin n (s ++ t)) : RunsWithin n s := by
  rintro r ⟨x, rfl⟩
  have hlonger := h (r ++ t) ⟨x, by simp⟩
  have hprefix : r.takeWhile isDigit <+: (r ++ t).takeWhile isDigit := by
    rw [List.takeWhile_append]
    split
    · next hall =>
      have hr : r.takeWhile isDigit = r := (List.takeWhile_prefix isDigit).eq_of_length hall
      rw [hr]
      exact List.prefix_append r _
    · exact List.prefix_refl _
  have := hprefix.length_le
  omega

theorem RunsWithin.of_isInfix (h : RunsWithin n t) (hs : s <:+: t) : RunsWithin n s := by
  obtain ⟨x, y, rfl⟩ := hs
  exact h.left.right

theorem RunsWithin.tail (h : RunsWithin n (c :: t)) : RunsWithin n t :=
  (runsWithin_cons_iff.mp h).2

/-! ### Putting texts together -/

/-- At another character a text falls into two with runs of their own. -/
theorem runsWithin_append_cons_iff (hc : isDigit c = false) :
    RunsWithin n (s ++ c :: t) ↔ RunsWithin n s ∧ RunsWithin n t := by
  constructor
  · exact fun h => ⟨h.left, h.right.tail⟩
  · rintro ⟨hs, ht⟩
    induction s with
    | nil => exact runsWithin_cons_iff.mpr ⟨by simp [hc], ht⟩
    | cons d s ih =>
      refine runsWithin_cons_iff.mpr ⟨?_, ih hs.tail⟩
      have hrun : (d :: s ++ c :: t).takeWhile isDigit = (d :: s).takeWhile isDigit := by
        rw [List.takeWhile_append]
        split
        · next hall =>
          rw [(List.takeWhile_prefix isDigit).eq_of_length hall]
          simp [hc]
        · rfl
      show ((d :: s ++ c :: t).takeWhile isDigit).length ≤ n
      rw [hrun]
      exact hs.takeWhile

theorem runsWithin_of_no_digit (h : ∀ c ∈ t, isDigit c = false) : RunsWithin n t := by
  induction t with
  | nil => exact runsWithin_nil
  | cons c t ih =>
    obtain ⟨hc, ht⟩ := List.forall_mem_cons.mp h
    exact (runsWithin_append_cons_iff (s := []) hc).mpr ⟨runsWithin_nil, ih ht⟩

theorem runsWithin_unlines_iff {ls : List Text} :
    RunsWithin n (unlines ls) ↔ ∀ l ∈ ls, RunsWithin n l := by
  induction ls with
  | nil => simp [unlines, List.intercalate]
  | cons l ls ih =>
    by_cases hls : ls = []
    · subst hls
      simp [unlines, List.intercalate]
    · rw [unlines_cons l hls, runsWithin_append_cons_iff (by decide), ih, List.forall_mem_cons]

theorem runsWithin_lines_iff : (∀ l ∈ lines t, RunsWithin n l) ↔ RunsWithin n t := by
  rw [← runsWithin_unlines_iff, unlines_lines]

/-- An enclosed text does not join the runs of its neighbours. -/
theorem RunsWithin.join (hs : RunsWithin n s) (hm : Enclosed n m) (ht : RunsWithin n t) :
    RunsWithin n (s ++ (m ++ t)) := by
  have hright : RunsWithin n (m ++ t) := by
    obtain ⟨d, hd⟩ : ∃ d, m.getLast? = some d := by
      cases hlast : m.getLast? with
      | none => exact absurd hm.last (by simp [hlast])
      | some d => exact ⟨d, rfl⟩
    obtain ⟨front, rfl⟩ := List.getLast?_eq_some_iff.mp hd
    have hdigit : isDigit d = false := by simpa using hm.last
    rw [List.append_assoc, List.singleton_append, runsWithin_append_cons_iff hdigit]
    exact ⟨hm.runs.left, ht⟩
  cases m with
  | nil => exact absurd hm.first (by simp)
  | cons c m =>
    have hdigit : isDigit c = false := by simpa using hm.first
    rw [List.cons_append, runsWithin_append_cons_iff hdigit]
    exact ⟨hs, hright.tail⟩

theorem Enclosed.append (hm : Enclosed n m) (ht : RunsWithin n t) : RunsWithin n (m ++ t) :=
  runsWithin_nil.join hm ht

/-- A text between two enclosed ones. -/
theorem Enclosed.around (hs : Enclosed n s) (hm : RunsWithin n m) (ht : Enclosed n t) :
    Enclosed n (s ++ (m ++ t)) := by
  refine ⟨hs.append ?_, ?_, ?_⟩
  · simpa using hm.join ht runsWithin_nil
  · cases s with
    | nil => exact absurd hs.first (by simp)
    | cons c s => simpa using hs.first
  · cases hlast : t.getLast? with
    | none => exact absurd ht.last (by simp [hlast])
    | some d => simpa [List.getLast?_append, hlast] using ht.last

theorem enclosed_of_no_digit (hne : t ≠ []) (h : ∀ c ∈ t, isDigit c = false) : Enclosed n t := by
  refine ⟨runsWithin_of_no_digit h, ?_, ?_⟩
  · obtain ⟨c, r, rfl⟩ := List.exists_cons_of_ne_nil hne
    simpa using h c (by simp)
  · rw [List.getLast?_eq_some_getLast hne]
    simpa using h _ (List.getLast_mem hne)

/-- Whether a text has something in it and no digit. -/
def isDigitless (t : Text) : Bool :=
  !t.isEmpty && t.all (!isDigit ·)

theorem enclosed_of_isDigitless (h : isDigitless t = true) : Enclosed n t := by
  simp only [isDigitless, Bool.and_eq_true, List.all_eq_true, Bool.not_eq_true'] at h
  exact enclosed_of_no_digit (by simpa using h.1) h.2

/-! ### Replacing -/

/-- Enclosed replacements do not make runs longer. -/
theorem runsWithin_written {ps : List (Segment (Option Text))}
    (hps : ∀ p ∈ ps, ∀ html, p.label = some html → RunsWithin n p.text → Enclosed n html)
    (h : RunsWithin n (source ps)) : RunsWithin n (written ps) := by
  -- The text in front holds what has been kept since the last replacement.
  have hgeneral : ∀ x, RunsWithin n (x ++ source ps) → RunsWithin n (x ++ written ps) := by
    clear h
    induction ps with
    | nil => exact fun _ h => h
    | cons p ps ih =>
      intro x h
      have ih := ih fun q hq => hps q (List.mem_cons_of_mem p hq)
      rw [source_cons] at h
      rw [written_cons]
      cases hlabel : p.label with
      | none =>
        rw [← List.append_assoc] at h
        rw [Option.getD_none, ← List.append_assoc]
        exact ih _ h
      | some html =>
        have hhtml := hps p List.mem_cons_self html hlabel h.right.left
        exact h.left.join hhtml (ih [] h.right.right)
  exact hgeneral [] h

/-- What a rule writes is enclosed. -/
def Encloses (n : Nat) (rule : Rule) : Prop :=
  ∀ before c r hit, rule before c r = some hit → RunsWithin n (c :: r.take hit.extra) →
    Enclosed n hit.text

theorem Encloses.pieces {rule : Rule} (hrule : Encloses n rule) :
    ∀ p ∈ pieces rule t, ∀ html, p.label = some html → RunsWithin n p.text → Enclosed n html := by
  intro p hp html hlabel hruns
  obtain ⟨before, c, r, hit, rest, hhit, htakes, rfl⟩ := exists_hit_of_mem_pieces hp hlabel
  rw [← htakes.take] at hruns
  exact hrule before c r hit hhit hruns

theorem RunsWithin.replaceBy {rule : Rule} (h : RunsWithin n t) (hrule : Encloses n rule) :
    RunsWithin n (replaceBy rule t) := by
  refine runsWithin_written hrule.pieces ?_
  rwa [source_pieces]

end Markdown.Text
