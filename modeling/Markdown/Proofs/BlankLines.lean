import Markdown.Proofs.CanonicalMarkdown
import Mathlib.Data.List.Infix

/-!
# Blank lines in the normal form

The normal form of Markdown has at most one empty line in a row, wherever it stands; inside code too.
`Canonical.squeeze` does this to lines, and `Canonical.replaceBy_unlines` says that the rule for line
feeds does the same to their text, if the lines begin and end with one that is not empty.
-/

namespace Markdown.Canonical

open FromHtml
open Text

variable {t : Text} {c : Char} {ls : List Text}

/-! ### The rule -/

theorem blankLinesRule_of_ne (before : Option Char) (c : Char) (r : Text) (hc : c ≠ '\n') :
    blankLinesRule before c r = none := by
  simp [blankLinesRule, hc]

/-- What stands before a place does not matter. -/
theorem replaceFrom_blankLinesRule (before : Option Char) (t : Text) :
    replaceFrom blankLinesRule before t = replaceBy blankLinesRule t := by
  cases t with
  | nil => rw [replaceBy_eq_replaceFrom, replaceFrom_nil, replaceFrom_nil]
  | cons c r =>
    rw [replaceBy_eq_replaceFrom]
    cases hrule : blankLinesRule before c r with
    | none =>
      have hfirst : blankLinesRule none c r = none := hrule
      rw [replaceFrom_cons_none hrule, replaceFrom_cons_none hfirst]
    | some hit =>
      have hfirst : blankLinesRule none c r = some hit := hrule
      rw [replaceFrom_cons_some hrule, replaceFrom_cons_some hfirst]

theorem replaceBy_cons_none (h : blankLinesRule none c t = none) :
    replaceBy blankLinesRule (c :: t) = c :: replaceBy blankLinesRule t := by
  rw [replaceBy_eq_replaceFrom, replaceFrom_cons_none h, replaceFrom_blankLinesRule]

/-- A line stays. -/
theorem replaceBy_append {l : Text} (hl : '\n' ∉ l) (t : Text) :
    replaceBy blankLinesRule (l ++ t) = l ++ replaceBy blankLinesRule t := by
  induction l with
  | nil => rfl
  | cons c l ih =>
    have hc : c ≠ '\n' := ne_of_mem_of_not_mem List.mem_cons_self hl
    rw [List.cons_append, replaceBy_cons_none (blankLinesRule_of_ne none c (l ++ t) hc),
      ih (List.not_mem_of_not_mem_cons hl)]
    rfl

theorem length_newlines (n : Nat) (hr : '\n' ∉ t.head?) :
    ((List.replicate n '\n' ++ t).takeWhile (· = '\n')).length = n := by
  have htake : t.takeWhile (· = '\n') = [] := by
    cases t with
    | nil => rfl
    | cons c r => exact List.takeWhile_cons_of_neg (by simpa using hr)
  rw [List.takeWhile_append_of_pos fun d hd => by simp [List.eq_of_mem_replicate hd], htake]
  simp

/-- Of the line feeds in front of a line, or at the end, at most two stay. -/
theorem replaceBy_newlines (n : Nat) (hr : '\n' ∉ t.head?) :
    replaceBy blankLinesRule (List.replicate n '\n' ++ t) =
      List.replicate (min n 2) '\n' ++ replaceBy blankLinesRule t := by
  have hkeep : ∀ k < 2, blankLinesRule none '\n' (List.replicate k '\n' ++ t) = none := by
    intro k hk
    rw [blankLinesRule, length_newlines _ hr]
    simp
    omega
  have hone : replaceBy blankLinesRule ('\n' :: t) = '\n' :: replaceBy blankLinesRule t :=
    replaceBy_cons_none (hkeep 0 (by omega))
  obtain hn | hn | hn | hn : n = 0 ∨ n = 1 ∨ n = 2 ∨ n - 3 + 3 = n := by omega
  · rw [hn]
    rfl
  · rw [hn]
    exact hone
  · rw [hn]
    show replaceBy blankLinesRule ('\n' :: (List.replicate 1 '\n' ++ t)) = _
    rw [replaceBy_cons_none (hkeep 1 (by omega)), List.replicate_one, List.singleton_append, hone]
    rfl
  · rw [← hn]
    generalize n - 3 = m
    have hrule : blankLinesRule none '\n' (List.replicate (m + 2) '\n' ++ t) =
        some ⟨m + 2, ['\n', '\n']⟩ := by
      rw [blankLinesRule, length_newlines _ hr]
      simp
    have hmin : min (m + 3) 2 = 2 := by omega
    rw [List.replicate_succ, List.cons_append, replaceBy_eq_replaceFrom,
      replaceFrom_cons_some hrule, replaceFrom_blankLinesRule, hmin,
      List.drop_left' (by simp : (List.replicate (m + 2) '\n').length = m + 2)]
    rfl

/-- Two line feeds at the end stay. -/
theorem replaceBy_end : replaceBy blankLinesRule ['\n', '\n'] = ['\n', '\n'] := by
  have hend := replaceBy_newlines 2 (t := []) (by simp)
  rwa [replaceBy_eq_replaceFrom blankLinesRule [], replaceFrom_nil] at hend

/-! ### Lines -/

/-- Lines without all empty ones that another empty one follows. -/
def squeeze : List Text → List Text
  | [] => []
  | l :: r => if l.isEmpty && r.head?.any List.isEmpty then squeeze r else l :: squeeze r

theorem squeeze_cons {l : Text} (hl : l ≠ []) (r : List Text) : squeeze (l :: r) = l :: squeeze r := by
  rw [squeeze, List.isEmpty_eq_false_iff.mpr hl]
  rfl

/-- Of the empty lines in front of a line that is not empty one stays, if there are any. -/
theorem squeeze_replicate (n : Nat) {l : Text} (hl : l ≠ []) (r : List Text) :
    squeeze (List.replicate n [] ++ l :: r) = List.replicate (min n 1) [] ++ l :: squeeze r := by
  induction n with
  | zero => exact squeeze_cons hl r
  | succ n ih =>
    have hmin : min (n + 1) 1 = 1 := by omega
    cases n with
    | zero => simp [squeeze, List.isEmpty_eq_false_iff.mpr hl]
    | succ n =>
      rw [List.replicate_succ, List.cons_append, squeeze, if_pos (by simp [List.replicate_succ]), ih,
        hmin, show min (n + 1) 1 = 1 by omega]

theorem squeeze_append {l : Text} (hl : l ≠ []) (ls r : List Text) :
    squeeze (ls ++ l :: r) = squeeze ls ++ l :: squeeze r := by
  induction ls with
  | nil => exact squeeze_cons hl r
  | cons k ls ih =>
    have hhead : (ls ++ l :: r).head?.any List.isEmpty = ls.head?.any List.isEmpty := by
      cases ls with
      | nil => simpa using hl
      | cons m ls => rfl
    rw [List.cons_append, squeeze, squeeze, hhead, ih]
    split <;> rfl

theorem squeeze_subset (ls : List Text) : squeeze ls ⊆ ls := by
  induction ls with
  | nil => exact List.Subset.refl _
  | cons l r ih =>
    rw [squeeze]
    split
    · exact List.subset_cons_of_subset l ih
    · exact List.cons_subset_cons l ih

theorem squeeze_ne_nil (h : ls ≠ []) : squeeze ls ≠ [] := by
  induction ls with
  | nil => exact absurd rfl h
  | cons l r ih =>
    rw [squeeze]
    split
    · next hfront =>
      refine ih ?_
      rintro rfl
      simp at hfront
    · simp

theorem length_squeeze_le (ls : List Text) : (squeeze ls).length ≤ ls.length := by
  induction ls with
  | nil => exact le_rfl
  | cons l r ih =>
    rw [squeeze]
    split
    · exact Nat.le_succ_of_le ih
    · exact Nat.succ_le_succ ih

/-- Only two empty lines side by side are squeezed. -/
theorem squeeze_eq_self_iff : squeeze ls = ls ↔ ¬ [[], []] <:+: ls := by
  induction ls with
  | nil => simp [squeeze]
  | cons l r ih =>
    have hfront : (l.isEmpty && r.head?.any List.isEmpty) = true ↔ [[], []] <+: l :: r := by
      cases r with
      | nil => simp
      | cons m r =>
        simp only [List.head?_cons, Option.any_some, Bool.and_eq_true, List.isEmpty_iff,
          List.cons_prefix_cons, List.nil_prefix, and_true, @eq_comm Text []]
    rw [squeeze, List.infix_cons_iff, ← hfront, not_or, ← ih]
    split
    · next h =>
      refine ⟨fun heq => ?_, fun hnot => absurd h hnot.1⟩
      have hle := length_squeeze_le r
      rw [heq, List.length_cons] at hle
      omega
    · next h => exact ⟨fun heq => ⟨h, (List.cons.inj heq).2⟩, fun heq => congrArg _ heq.2⟩

theorem squeeze_of_areSolid (h : AreSolid ls) : squeeze ls = ls := by
  rw [squeeze_eq_self_iff]
  intro hpair
  exact (h [] (hpair.subset List.mem_cons_self)).1 rfl

/-- A line with empty lines behind it. -/
theorem unlines_replicate (l : Text) (n : Nat) (m : Text) (r : List Text) :
    unlines (l :: (List.replicate n [] ++ m :: r)) =
      l ++ (List.replicate (n + 1) '\n' ++ unlines (m :: r)) := by
  induction n generalizing l with
  | zero => exact unlines_cons l (by simp)
  | succ n ih =>
    rw [List.replicate_succ, List.cons_append, unlines_cons l (by simp), ih []]
    rfl

/-- The first character of lines that are not empty. -/
theorem exists_cons_unlines {l : Text} (h : l ≠ [] ∧ '\n' ∉ l) (ls : List Text) :
    ∃ c s, unlines (l :: ls) = c :: s ∧ c ≠ '\n' := by
  obtain ⟨c, r, rfl⟩ := List.exists_cons_of_ne_nil h.1
  have hc : c ≠ '\n' := ne_of_mem_of_not_mem List.mem_cons_self h.2
  by_cases hls : ls = []
  · subst hls
    exact ⟨c, r, by simp [unlines], hc⟩
  · exact ⟨c, r ++ '\n' :: unlines ls, unlines_cons (c :: r) hls, hc⟩

/-- Lines with one that is not empty at the end: some that are empty, the first that is not, and the
others. -/
theorem exists_first_solid (hne : ls ≠ []) (hlast : ∀ l ∈ ls.getLast?, l ≠ []) :
    ∃ n m r, ls = List.replicate n [] ++ m :: r ∧ m ≠ [] ∧ ∀ l ∈ (m :: r).getLast?, l ≠ [] := by
  induction ls with
  | nil => exact absurd rfl hne
  | cons l ls ih =>
    by_cases hl : l = []
    · subst hl
      have hls : ls ≠ [] := by
        rintro rfl
        exact hlast [] rfl rfl
      obtain ⟨k, ls, rfl⟩ := List.exists_cons_of_ne_nil hls
      obtain ⟨n, m, r, heq, hm, hr⟩ := ih hls hlast
      exact ⟨n + 1, m, r, by rw [heq, List.replicate_succ, List.cons_append], hm, hr⟩
    · exact ⟨0, l, ls, rfl, hl, hlast⟩

/-- Lines of which the first and the last are not empty are squeezed. -/
theorem replaceBy_unlines {l : Text} (hl : l ≠ []) (hclean : ∀ k ∈ l :: ls, '\n' ∉ k)
    (hlast : ∀ k ∈ (l :: ls).getLast?, k ≠ []) (t : Text) :
    replaceBy blankLinesRule (unlines (l :: ls) ++ t) =
      unlines (l :: squeeze ls) ++ replaceBy blankLinesRule t := by
  -- on the number of lines: each step goes to the next line that is not empty
  induction hn : ls.length using Nat.strongRecOn generalizing l ls with
  | ind n ih =>
    obtain ⟨hline, hclean⟩ := List.forall_mem_cons.mp hclean
    cases ls with
    | nil => simpa [unlines, squeeze] using replaceBy_append hline t
    | cons k ls =>
      obtain ⟨blanks, m, r, heq, hm, hmlast⟩ := exists_first_solid (List.cons_ne_nil k ls) hlast
      rw [heq] at hn hclean ⊢
      have hmclean : ∀ k ∈ m :: r, '\n' ∉ k := fun k hk => hclean k (List.mem_append_right _ hk)
      have hrest := ih r.length (by simp at hn; omega) hm hmclean hmlast rfl
      obtain ⟨c, s, hcons, hc⟩ := exists_cons_unlines ⟨hm, hmclean m List.mem_cons_self⟩ r
      have hmin : min (blanks + 1) 2 = min blanks 1 + 1 := by omega
      rw [hcons, List.cons_append] at hrest
      rw [unlines_replicate, squeeze_replicate blanks hm, unlines_replicate, hcons, List.append_assoc,
        replaceBy_append hline, List.append_assoc, List.cons_append, replaceBy_newlines _ (by simpa using hc),
        hrest,
        hmin]
      simp only [List.append_assoc]

/-- Lines that are not empty stay. -/
theorem replaceBy_unlines_of_areSolid (h : AreSolid ls) (t : Text) :
    replaceBy blankLinesRule (unlines ls ++ t) = unlines ls ++ replaceBy blankLinesRule t := by
  cases ls with
  | nil => rfl
  | cons l ls =>
    obtain ⟨hl, hls⟩ := List.forall_mem_cons.mp h
    rw [replaceBy_unlines hl.1 (fun k hk => (h k hk).2)
      (fun k hk => (h k (List.mem_of_getLast? hk)).1), squeeze_of_areSolid hls]

end Markdown.Canonical
