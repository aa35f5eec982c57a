import Markdown.Text.Basic

/-!
# Lines and their text

Splitting a text into lines and putting lines together are inverse to each other, and every character
of a line is one of the text.
-/

namespace Markdown.Text

variable {t l : Text} {ls : List Text} {c : Char}

theorem unlines_lines (t : Text) : unlines (lines t) = t :=
  List.intercalate_splitOn '\n'

theorem lines_unlines (hne : ls ≠ []) (h : ∀ l ∈ ls, '\n' ∉ l) : lines (unlines ls) = ls :=
  List.splitOn_intercalate '\n' h hne

theorem lines_ne_nil (t : Text) : lines t ≠ [] :=
  List.splitOn_ne_nil '\n' t

/-- Every text has a first line. -/
theorem exists_cons_lines (t : Text) : ∃ l ls, lines t = l :: ls :=
  List.exists_cons_of_ne_nil (lines_ne_nil t)

theorem lines_of_not_mem (h : '\n' ∉ t) : lines t = [t] :=
  List.splitOn_eq_singleton h

/-- What stands in front of a text stands in front of its first line. -/
theorem lines_append_of_not_mem {s : Text} (hs : '\n' ∉ s) (t : Text) :
    lines (s ++ t) = (lines t).modifyHead (s ++ ·) := by
  induction s with
  | nil =>
    obtain ⟨l, ls, hlines⟩ := exists_cons_lines t
    rw [List.nil_append, hlines]
    rfl
  | cons c s ih =>
    have hc : (c == '\n') = false := beq_eq_false_iff_ne.mpr (ne_of_mem_of_not_mem List.mem_cons_self hs)
    have hrest := ih (List.not_mem_of_not_mem_cons hs)
    rw [lines] at hrest ⊢
    rw [List.cons_append, List.splitOn_cons_eq_if_modifyHead, hc, hrest]
    simp [List.modifyHead_modifyHead, Function.comp_def]

/-- A text has one line more than line feeds. -/
theorem length_lines (t : Text) : (lines t).length = t.count '\n' + 1 := by
  induction t with
  | nil => rfl
  | cons c t ih =>
    rw [lines] at ih ⊢
    rw [List.splitOn_cons_eq_if_modifyHead]
    split
    · next hc =>
      rw [List.length_cons, ih, beq_iff_eq.mp hc, List.count_cons_self]
    · next hc =>
      rw [List.length_modifyHead, ih, List.count_cons_of_ne (by simpa using hc)]

/-- The parts of a text hold no separators. -/
theorem separator_notMem_of_mem_splitOn {d : Char} {t l : Text} (h : l ∈ t.splitOn d) : d ∉ l := by
  induction t generalizing l with
  | nil =>
    obtain rfl := List.mem_singleton.mp h
    exact List.not_mem_nil
  | cons c t ih =>
    rw [List.splitOn_cons_eq_if_modifyHead] at h
    split at h
    · rcases List.mem_cons.mp h with rfl | h
      · exact List.not_mem_nil
      · exact ih h
    · next hc =>
      obtain ⟨first, more, hparts⟩ := List.exists_cons_of_ne_nil (List.splitOn_ne_nil d t)
      rw [hparts, List.modifyHead_cons] at h
      rcases List.mem_cons.mp h with rfl | h
      · refine List.not_mem_cons_of_ne_of_not_mem (fun heq => hc (by simp [← heq])) ?_
        exact ih (by rw [hparts]; exact List.mem_cons_self)
      · exact ih (by rw [hparts]; exact List.mem_cons_of_mem _ h)

theorem unlines_cons (l : Text) (hne : ls ≠ []) : unlines (l :: ls) = l ++ '\n' :: unlines ls := by
  obtain ⟨k, r, rfl⟩ := List.exists_cons_of_ne_nil hne
  simp [unlines, List.intercalate_cons_cons]

theorem unlines_append {ks : List Text} (hks : ks ≠ []) (hne : ls ≠ []) :
    unlines (ks ++ ls) = unlines ks ++ '\n' :: unlines ls := by
  induction ks with
  | nil => exact absurd rfl hks
  | cons k ks ih =>
    by_cases hrest : ks = []
    · subst hrest
      simpa [unlines, List.intercalate] using unlines_cons k hne
    · rw [List.cons_append, unlines_cons k (by simp [hrest]), ih hrest, unlines_cons k hrest]
      simp

theorem flatMap_lines_of_clean (h : ∀ l ∈ ls, '\n' ∉ l) : ls.flatMap lines = ls := by
  induction ls with
  | nil => rfl
  | cons l ls ih =>
    obtain ⟨hl, hls⟩ := List.forall_mem_cons.mp h
    rw [List.flatMap_cons, lines_of_not_mem hl, ih hls]
    rfl

/-- Texts below each other are their lines below each other. -/
theorem unlines_flatMap_lines (ts : List Text) : unlines (ts.flatMap lines) = unlines ts := by
  induction ts with
  | nil => rfl
  | cons t ts ih =>
    rw [List.flatMap_cons]
    cases ts with
    | nil => rw [List.flatMap_nil, List.append_nil, unlines_lines, unlines, List.intercalate_singleton]
    | cons u ts =>
      have hne : (u :: ts).flatMap lines ≠ [] := by
        rw [List.flatMap_cons]
        exact List.append_ne_nil_of_left_ne_nil (lines_ne_nil u) _
      rw [unlines_append (lines_ne_nil t) hne, unlines_lines, ih, unlines_cons t (by simp)]

theorem forall_mem_intercalate {P : Char → Prop} {separator : Text} {ts : List Text}
    (hseparator : ∀ c ∈ separator, P c) (h : ∀ t ∈ ts, ∀ c ∈ t, P c) :
    ∀ c ∈ separator.intercalate ts, P c := by
  induction ts with
  | nil => simp [List.intercalate]
  | cons t ts ih =>
    cases ts with
    | nil => simpa [List.intercalate] using h
    | cons u ts =>
      rw [List.intercalate_cons_cons]
      simp only [List.mem_append]
      rintro c ((hc | hc) | hc)
      · exact h t List.mem_cons_self c hc
      · exact hseparator c hc
      · exact ih (fun v hv => h v (List.mem_cons_of_mem t hv)) c hc

theorem mem_unlines_of_mem (hl : l ∈ ls) (hc : c ∈ l) : c ∈ unlines ls := by
  induction ls with
  | nil => cases hl
  | cons k ls ih =>
    by_cases hls : ls = []
    · subst hls
      obtain rfl := List.mem_singleton.mp hl
      simpa [unlines, List.intercalate] using hc
    · rw [unlines_cons k hls]
      rcases List.mem_cons.mp hl with rfl | hl
      · exact List.mem_append_left _ hc
      · exact List.mem_append_right _ (List.mem_cons_of_mem _ (ih hl))

theorem mem_of_mem_lines (hl : l ∈ lines t) (hc : c ∈ l) : c ∈ t := by
  have hmem := mem_unlines_of_mem hl hc
  rwa [unlines_lines] at hmem

/-! ### Blank lines -/

theorem allBlank_unlines (h : ∀ l ∈ ls, allBlank l = true) : allBlank (unlines ls) = true :=
  List.all_eq_true.mpr
    (forall_mem_intercalate (List.forall_mem_singleton.mpr rfl) fun l hl =>
      List.all_eq_true.mp (h l hl))

theorem allBlank_of_mem_lines (h : allBlank t = true) (hl : l ∈ lines t) : allBlank l = true :=
  List.all_eq_true.mpr fun c hc => List.all_eq_true.mp h c (mem_of_mem_lines hl hc)

/-! ### Trimming -/

theorem trimStart_cons (hc : isBlank c = false) (r : Text) : trimStart (c :: r) = c :: r := by
  simp [trimStart, trimStartBy, hc]

theorem trimStart_append {s : Text} (h : allBlank s = true) (t : Text) :
    trimStart (s ++ t) = trimStart t :=
  List.dropWhile_append_of_pos (List.all_eq_true.mp h)

end Markdown.Text
