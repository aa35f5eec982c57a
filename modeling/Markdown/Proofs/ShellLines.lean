import Markdown.Highlight.Bash
import Markdown.Proofs.Runs
import Markdown.Proofs.Spans

/-!
# Shell source line by line

A line feed between two spans puts the scanner for shell source back into the state in which it starts,
and no step looks behind itself. So the spans behind the line feed are those of the rest of the source
(`Bash.spans_behind_newline`). Only a string and a variable in braces may hold a line feed among other
characters (`Bash.newline_cases`): any other line feed is a span of its own.
-/

namespace Markdown.Highlight.Bash

open Text

variable {expect : Bool} {c : Char} {r t : Text}

/-! ### Spans that may go on behind a line end -/

/-- A string, or a variable in braces. -/
def MayGoOn (p : Span) : Prop :=
  (p.label = some .string ∧ (['"'] <+: p.text ∨ ['\''] <+: p.text)) ∨
    (p.label = some .variable ∧ ['$', '{'] <+: p.text)

/-- A run of characters none of which is a line feed. -/
theorem newline_notMem_run {p : Char → Bool} (hp : p '\n' = false) (t : Text) :
    '\n' ∉ t.take (runLength p t) := by
  rw [runLength, ← List.prefix_iff_eq_take.mp (List.takeWhile_prefix p)]
  intro hmem
  rw [of_mem_takeWhile hmem] at hp
  cases hp

/-- A character and the rest of a name behind it. -/
theorem newline_notMem_name (hc : c ≠ '\n') (t : Text) :
    '\n' ∉ (c :: t).take (1 + runLength isWord t) := by
  rw [Nat.add_comm, List.take_succ_cons]
  exact List.not_mem_cons_of_ne_of_not_mem hc.symm (newline_notMem_run rfl t)

theorem newline_notMem_number (t : Text) : '\n' ∉ t.take (numberLength t) := by
  unfold numberLength
  extract_lets hex n
  split
  · unfold hex
    split
    · next x r _ =>
      split
      · next hx =>
        have hmark : '\n' ≠ x := by
          rintro rfl
          cases hx
        rw [Nat.add_comm, List.take_succ_cons, List.take_succ_cons]
        exact List.not_mem_cons_of_ne_of_not_mem (by decide)
          (List.not_mem_cons_of_ne_of_not_mem hmark (newline_notMem_run rfl r))
      · simp
    · simp
  · split
    · exact newline_notMem_run rfl t
    · simp

theorem newline_notMem_word (t : Text) : '\n' ∉ t.take (wordLength t) := by
  unfold wordLength
  split
  · next c r =>
    split
    · next hc =>
      refine newline_notMem_name ?_ r
      rintro rfl
      cases hc
    · simp
  · simp

/-- A variable without braces is a mark or a name on one line. -/
theorem newline_notMem_variable (r : Text) :
    ['{'] <+: r ∧ 0 < variableLength r ∨ '\n' ∉ r.take (variableLength r) := by
  unfold variableLength
  split
  · next t =>
    refine .inl ⟨⟨t, rfl⟩, ?_⟩
    extract_lets n
    split <;> exact Nat.succ_pos _
  · next c t _ =>
    right
    split
    · next hc =>
      have hmark : '\n' ≠ c := by
        rintro rfl
        cases hc
      simpa using hmark
    · split
      · next hc =>
        refine newline_notMem_name ?_ t
        rintro rfl
        cases hc
      · simp
  · simp

theorem newline_notMem_operator {o : Text × Bool} (ho : o ∈ operators) : o.1 ≠ [] ∧ '\n' ∉ o.1 := by
  have hall : (operators.all fun o => decide (o.1 ≠ [] ∧ '\n' ∉ o.1)) = true := by decide
  exact of_decide_eq_true (List.all_eq_true.mp hall o ho)

/-- **What a step does at a line end.** A span with a line feed is that line feed alone, and a command is
expected behind it; or the span is a string or a variable in braces. -/
theorem newline_cases (expect : Bool) (c : Char) (r : Text) :
    (c = '\n' ∧ step expect c r = cut 0 none true) ∨
      MayGoOn ((step expect c r).taken c r) ∨ '\n' ∉ c :: r.take (step expect c r).extra := by
  by_cases hline : c = '\n'
  · exact .inl ⟨hline, if_pos hline⟩
  right
  -- Most spans are runs at the start of `c :: r`, counted with their first character.
  have hrun : ∀ n, n ≠ 0 → '\n' ∉ (c :: r).take n → '\n' ∉ c :: r.take (n - 1) := by
    intro n hn hmem
    rwa [← List.take_succ_cons, Nat.sub_add_cancel (Nat.pos_of_ne_zero hn)]
  have hsingle : '\n' ∉ c :: r.take 0 := by simpa using Ne.symm hline
  unfold step
  rw [if_neg hline]
  split
  · exact .inr hsingle
  split
  · exact .inr (List.not_mem_cons_of_ne_of_not_mem (Ne.symm hline) (newline_notMem_run (by simp) r))
  split
  · next hquote =>
    refine .inl (.inl ⟨rfl, ?_⟩)
    simp only [Bool.or_eq_true, decide_eq_true_eq] at hquote
    exact hquote.imp (fun h => ⟨_, by rw [h]; rfl⟩) (fun h => ⟨_, by rw [h]; rfl⟩)
  split
  · next hdollar =>
    subst hdollar
    rcases newline_notMem_variable r with ⟨⟨t, rfl⟩, hlength⟩ | hone
    · refine .inl (.inr ⟨rfl, ?_⟩)
      obtain ⟨n, hn⟩ := Nat.exists_eq_succ_of_ne_zero hlength.ne'
      rw [hn]
      exact ⟨t.take n, rfl⟩
    · exact .inr (List.not_mem_cons_of_ne_of_not_mem (Ne.symm hline) hone)
  split
  · next o ho =>
    obtain ⟨hne, hnot⟩ := newline_notMem_operator (List.mem_of_find?_eq_some ho)
    have hprefix : o.1 <+: c :: r := by simpa using List.find?_some ho
    refine .inr (hrun _ (by simpa using hne) ?_)
    rwa [← List.prefix_iff_eq_take.mp hprefix]
  extract_lets number command word
  split
  · next hnumber => exact .inr (hrun _ hnumber (newline_notMem_number _))
  split
  · next hcommand =>
    simp only [Bool.and_eq_true, decide_eq_true_eq] at hcommand
    exact .inr (hrun _ hcommand.2 (newline_notMem_run rfl _))
  split
  · next hword =>
    have hwhole := hrun _ hword (newline_notMem_word (c :: r))
    split <;> exact .inr hwhole
  split <;> exact .inr hsingle

/-! ### Source -/

variable {code : Text} {front back : List Span} {p : Span}

/-- A span is taken by a step at its first character. -/
theorem exists_step (h : spans code = front ++ p :: back) :
    ∃ expect c r, code = spansCode front ++ c :: r ∧ p = (step expect c r).taken c r ∧
      back = segment step (step expect c r).state (r.drop (step expect c r).extra) := by
  obtain ⟨expect, c, r, -, hcode, hp, hback⟩ :=
    exists_reached (I := fun _ _ => True) (fun _ _ _ _ _ => trivial) trivial h
  exact ⟨expect, c, r, hcode, hp, hback⟩

/-- Behind a line feed the scanner is in the state in which it starts. -/
theorem restarts (h : spans code = front ++ p :: back) (hp : p.text = ['\n']) :
    p = ⟨none, ['\n']⟩ ∧ back = spans (code.drop ((spansCode front).length + 1)) := by
  obtain ⟨expect, c, r, rfl, rfl, rfl⟩ := exists_step h
  obtain ⟨rfl, -⟩ : c = '\n' ∧ r.take (step expect c r).extra = [] := List.cons.inj hp
  have hstep : step expect '\n' r = cut 0 none true := if_pos rfl
  have hrest : (spansCode front ++ '\n' :: r).drop ((spansCode front).length + 1) = r := by
    rw [← List.drop_drop, List.drop_left]
    rfl
  rw [hstep, hrest]
  exact ⟨rfl, rfl⟩

/-- A line feed of the source is a span, or it stands inside one that may go on behind it. -/
theorem exists_newline {a b : Text} (h : code = a ++ '\n' :: b) :
    ∃ front p back u v, spans code = front ++ p :: back ∧ p.text = u ++ '\n' :: v ∧
      spansCode front ++ u = a ∧ (p.text = ['\n'] ∨ MayGoOn p) := by
  have hwhole : (spans code).flatMap Segment.text = a ++ '\n' :: b :=
    (flatMap_text_segment step true code).trans h
  obtain ⟨front, p, back, u, v, hspans, htext, ha, -⟩ := exists_segment_at hwhole
  refine ⟨front, p, back, u, v, hspans, htext, ha.symm, ?_⟩
  obtain ⟨expect, c, r, -, rfl, -⟩ := exists_step hspans
  rcases newline_cases expect c r with ⟨rfl, hstep⟩ | hgoes | hnone
  · rw [hstep]
    exact .inl rfl
  · exact .inr hgoes
  · have hmem : '\n' ∈ c :: r.take (step expect c r).extra := by
      rw [show c :: r.take (step expect c r).extra = u ++ '\n' :: v from htext]
      simp
    exact absurd hmem hnone

/-- **Each line starts afresh.** Take any shell source. If one of its spans is a line feed alone, the
spans behind it are those of the source behind it. So at every line feed there are two cases: either it
is such a span, and what stands behind it has the spans that it has for itself, whatever the lines in
front are; or it stands inside a string or a variable in braces. -/
theorem spans_behind_newline (code : Text) :
    (∀ front p back, spans code = front ++ p :: back → p.text = ['\n'] →
      back = spans (code.drop ((spansCode front).length + 1))) ∧
    ∀ a b, code = a ++ '\n' :: b →
      (∃ front, spansCode front = a ∧ spans code = front ++ ⟨none, ['\n']⟩ :: spans b) ∨
      ∃ front p back u v, spans code = front ++ p :: back ∧ MayGoOn p ∧
        p.text = u ++ '\n' :: v ∧ spansCode front ++ u = a := by
  refine ⟨fun front p back h hp => (restarts h hp).2, fun a b hab => ?_⟩
  obtain ⟨front, p, back, u, v, hspans, htext, ha, hp | hgoes⟩ := exists_newline hab
  · left
    obtain ⟨rfl, hback⟩ := restarts hspans hp
    have hu : u = [] := by
      cases u with
      | nil => rfl
      | cons d u => simp at htext
    rw [hu, List.append_nil] at ha
    have hrest : code.drop ((spansCode front).length + 1) = b := by
      rw [hab, ha, ← List.drop_drop, List.drop_left]
      rfl
    exact ⟨front, ha, by rw [hspans, hback, hrest]⟩
  · exact .inr ⟨front, p, back, u, v, hspans, hgoes, htext, ha⟩

/-- The spans in front of the last line of `echo 'a b' x`, where the blank in the string is a line feed. -/
def beforeLast : List Span :=
  [⟨some .keyword, "echo".toList⟩, ⟨none, [' ']⟩, ⟨some .string, "'a\nb'".toList⟩, ⟨none, [' ']⟩,
    ⟨none, ['x']⟩]

/-- The first line feed belongs to a string, and the second one starts a line. -/
theorem spans_behind_newline_string :
    spans "echo 'a\nb' x\nls".toList = beforeLast ++ ⟨none, ['\n']⟩ :: [⟨some .keyword, "ls".toList⟩] ∧
      [⟨some .keyword, "ls".toList⟩] = spans "ls".toList := by
  have hspans : spans "echo 'a\nb' x\nls".toList =
      beforeLast ++ ⟨none, ['\n']⟩ :: [⟨some .keyword, "ls".toList⟩] := by
    decide +kernel
  exact ⟨hspans, (spans_behind_newline _).1 _ _ _ hspans rfl⟩

end Markdown.Highlight.Bash
