import Markdown.Highlight.Css
import Markdown.Proofs.Runs
import Markdown.Proofs.Search

/-!
# Style sheets

The scanner for style sheets keeps the part of the rule that it is in and the number of open braces. Both
can be read off the spans that it has found so far (`Css.Follows`): the number of open braces is the
depth to which the marks `{` and `}` have led, where a stray `}` counts for nothing, and inside braces the
part is that of values exactly if the last of the marks `{`, `}`, `;` and `:` is a colon. Every step keeps
this, whatever stands in the style sheet (`Css.Follows.step`). So the spans in front of a word decide its
class (`Css.classes_follow_braces`).
-/

namespace Markdown.Highlight.Css

open Text

/-! ### What a step can do -/

/-- Behind blanks, comments and quotes only punctuation is no word. A slash belongs to a word, since it
opens no comment, and so does a colon where it is no punctuation. -/
theorem wordLength_ne_zero {context : Context} {c : Char} {r : Text} (hblank : ¬isBlank c = true)
    (hcomment : ¬(c = '/' && r.head? = some '*') = true) (hquote : ¬(c = '"' ∨ c = '\''))
    (hmark : ¬isPunctuation context c = true) : wordLength context (c :: r) ≠ 0 := by
  have hword : (isWordChar context c || (c = '/' && r.head? ≠ some '*')) = true := by
    by_cases hslash : c = '/'
    · subst hslash
      simpa using .inr (by simpa using hcomment)
    · simp_all [isWordChar, isPunctuation, imp_iff_not_or]
  rw [wordLength, if_pos hword]
  exact Nat.succ_ne_zero _

/-- The ways in which a span starts: a run of blanks; a comment, a string or the name of an at-rule; a
mark of punctuation; a word. Only a mark changes the state. -/
theorem step_cases (s : State) (c : Char) (r : Text) :
    (isBlank c = true ∧ step s c r = cut (runLength isBlank r) none s) ∨
    (∃ n k, k ∈ [.comment, .string, .atRule] ∧ step s c r = cut n (some k) s) ∨
    (isPunctuation s.context c = true ∧ step s c r = cut 0 (some .punctuation) (s.after c)) ∨
    ∃ n, step s c r = cut n (some s.context.wordClass) s := by
  unfold step
  split
  · next hc => exact .inl ⟨hc, rfl⟩
  split
  · exact .inr (.inl ⟨_, _, by simp, rfl⟩)
  split
  · exact .inr (.inl ⟨_, _, by simp, rfl⟩)
  split
  · exact .inr (.inl ⟨_, _, by simp, rfl⟩)
  split
  · next hc => exact .inr (.inr (.inl ⟨hc, rfl⟩))
  · next hblank hcomment hquote _ hmark =>
    refine .inr (.inr (.inr ⟨wordLength s.context (c :: r) - 1, if_pos ?_⟩))
    exact wordLength_ne_zero hblank hcomment (by simpa using hquote) hmark

/-! ### What the spans tell about the state -/

/-- The number of open braces behind a span. -/
def depthAfter (depth : Nat) (p : Span) : Nat :=
  if p = ⟨some .punctuation, ['{']⟩ then depth + 1
  else if p = ⟨some .punctuation, ['}']⟩ then depth - 1
  else depth

/-- The number of open braces behind some spans. -/
def depth (spans : List Span) : Nat :=
  spans.foldl depthAfter 0

/-- A mark of punctuation between rules, declarations, properties and values. -/
def isSeparator (p : Span) : Bool :=
  p.label = some .punctuation && [['{'], ['}'], [';'], [':']].contains p.text

/-- The last separator is a colon. -/
def BehindColon (spans : List Span) : Prop :=
  (spans.filter isSeparator).getLast? = some ⟨some .punctuation, [':']⟩

theorem depth_concat (front : List Span) (p : Span) :
    depth (front ++ [p]) = depthAfter (depth front) p := by
  rw [depth, List.foldl_append]
  rfl

theorem behindColon_concat_of_separator {front : List Span} {p : Span} (hp : isSeparator p = true) :
    BehindColon (front ++ [p]) ↔ p = ⟨some .punctuation, [':']⟩ := by
  rw [BehindColon, List.filter_append, List.filter_singleton, hp]
  simp

theorem behindColon_concat {front : List Span} {p : Span} (hp : isSeparator p = false) :
    BehindColon (front ++ [p]) ↔ BehindColon front := by
  rw [BehindColon, List.filter_append, List.filter_singleton, hp]
  simp [BehindColon]

/-- The state of the scanner behind some spans. -/
structure Follows (front : List Span) (s : State) : Prop where
  /-- The open braces are counted. -/
  depth_eq : s.depth = depth front
  /-- Selectors stand outside braces. -/
  selector_iff : s.context = .selector ↔ depth front = 0
  /-- Inside braces, values stand behind a colon. -/
  value_iff : 0 < depth front → (s.context = .value ↔ BehindColon front)

variable {front : List Span} {s : State}

/-- Only braces change the depth. -/
theorem depth_concat_of_ne {p : Span} (hopen : p ≠ ⟨some .punctuation, ['{']⟩)
    (hclose : p ≠ ⟨some .punctuation, ['}']⟩) : depth (front ++ [p]) = depth front := by
  rw [depth_concat, depthAfter, if_neg hopen, if_neg hclose]

/-- A span that is no separator changes nothing. -/
theorem Follows.other (h : Follows front s) {p : Span} (hp : isSeparator p = false) :
    Follows (front ++ [p]) s := by
  have hdepth : depth (front ++ [p]) = depth front := by
    apply depth_concat_of_ne
    all_goals
      rintro rfl
      cases hp
  constructor
  · rw [hdepth, h.depth_eq]
  · rw [hdepth, h.selector_iff]
  · rw [hdepth, behindColon_concat hp]
    exact h.value_iff

/-- A separator other than the colon leads to the start of a rule or of a declaration. -/
theorem follows_fresh {p : Span} (hp : isSeparator p = true) (hcolon : p ≠ ⟨some .punctuation, [':']⟩)
    {d : Nat} (hdepth : d = depth (front ++ [p])) : Follows (front ++ [p]) (State.fresh d) := by
  have hlast : ¬BehindColon (front ++ [p]) := by
    rwa [behindColon_concat_of_separator hp]
  rw [hdepth]
  by_cases hzero : depth (front ++ [p]) = 0
  · exact ⟨rfl, by simp [State.fresh, hzero], fun h => absurd hzero h.ne'⟩
  · exact ⟨rfl, by simp [State.fresh, hzero], fun _ => by simp [State.fresh, hzero, hlast]⟩

/-- The colon of a property leads to its value. -/
theorem Follows.colon (h : Follows front s) (hproperty : s.context = .property) :
    Follows (front ++ [⟨some .punctuation, [':']⟩]) { s with context := .value } := by
  have hdepth : depth (front ++ [⟨some .punctuation, [':']⟩]) = depth front :=
    depth_concat_of_ne (by simp) (by simp)
  have hinside : depth front ≠ 0 := by
    rw [Ne, ← h.selector_iff, hproperty]
    simp
  constructor
  · rw [hdepth, ← h.depth_eq]
  · rw [hdepth]
    simpa using hinside
  · intro _
    rw [behindColon_concat_of_separator rfl]
    simp

/-- A mark of punctuation. -/
theorem Follows.mark (h : Follows front s) {c : Char} (hc : isPunctuation s.context c = true) :
    Follows (front ++ [⟨some .punctuation, [c]⟩]) (s.after c) := by
  by_cases hopen : c = '{'
  · subst hopen
    refine follows_fresh (d := s.depth + 1) rfl (by simp) ?_
    rw [depth_concat, h.depth_eq]
    rfl
  by_cases hclose : c = '}'
  · subst hclose
    refine follows_fresh (d := s.depth - 1) rfl (by simp) ?_
    rw [depth_concat, h.depth_eq]
    rfl
  by_cases hcolon : c = ':'
  · subst hcolon
    exact h.colon (by simpa [isPunctuation] using hc)
  by_cases hend : c = ';'
  · subst hend
    refine follows_fresh (d := s.depth) rfl (by simp) ?_
    rw [depth_concat, h.depth_eq]
    rfl
  · rw [State.after, if_neg hopen, if_neg hclose, if_neg hcolon, if_neg hend]
    exact h.other (by simp [isSeparator, hopen, hclose, hcolon, hend])

theorem follows_initial : Follows [] State.initial :=
  ⟨rfl, by simp [State.initial, depth], fun h => absurd h (by simp [depth])⟩

/-- Every step keeps the state in agreement with the spans. -/
theorem Follows.step (h : Follows front s) (c : Char) (r : Text) :
    Follows (front ++ [(step s c r).taken c r]) (step s c r).state := by
  rcases step_cases s c r with ⟨-, hcut⟩ | ⟨n, k, hk, hcut⟩ | ⟨hmark, hcut⟩ | ⟨n, hcut⟩
  · rw [hcut]
    exact h.other rfl
  · rw [hcut]
    refine h.other ?_
    simp only [List.mem_cons, List.not_mem_nil, or_false] at hk
    rcases hk with rfl | rfl | rfl <;> rfl
  · rw [hcut]
    exact h.mark hmark
  · rw [hcut]
    refine h.other ?_
    cases hcontext : s.context <;> rfl

/-! ### Classes -/

/-- A word of a selector, the name of a property or a word of its value. -/
def IsWord (p : Span) : Prop :=
  p.label = some .selector ∨ p.label = some .property ∨ p.label = some .value

/-- The class of a word is that of the part of the rule. -/
theorem Follows.wordClass (h : Follows front s) :
    (s.context.wordClass = .selector ↔ depth front = 0) ∧
      (0 < depth front → (s.context.wordClass = .value ↔ BehindColon front) ∧
        (s.context.wordClass = .property ↔ ¬BehindColon front)) := by
  obtain ⟨-, hselector, hvalue⟩ := h
  constructor
  · rw [← hselector]
    cases s.context <;> simp [Context.wordClass]
  · intro hinside
    have hcontext : s.context ≠ .selector := by
      rw [Ne, hselector]
      exact hinside.ne'
    rw [← hvalue hinside]
    cases hpart : s.context with
    | selector => exact absurd hpart hcontext
    | property => simp [Context.wordClass]
    | value => simp [Context.wordClass]

/-- **The classes follow the braces.** Take any span of any style sheet and count the open braces in
front of it, a stray `}` for nothing. If the span is a word, it belongs to a selector exactly outside
braces; inside them it belongs to a value exactly if the last of the marks `{`, `}`, `;` and `:` in front
of it is a colon, and else to a property. If the span has no class, it is a run of blanks: no other
character is left without one. -/
theorem classes_follow_braces {code : Text} {front back : List Span} {p : Span}
    (h : spans code = front ++ p :: back) :
    (IsWord p → (p.label = some .selector ↔ depth front = 0) ∧
      (0 < depth front → (p.label = some .value ↔ BehindColon front) ∧
        (p.label = some .property ↔ ¬BehindColon front))) ∧
    (p.label = none → p.text ≠ [] ∧ ∀ c ∈ p.text, isBlank c = true) := by
  obtain ⟨s, c, r, hfollows, -, rfl, -⟩ := exists_reached (I := Follows)
    (fun _ _ c r h => h.step c r) follows_initial h
  rcases step_cases s c r with ⟨hblank, hcut⟩ | ⟨n, k, hk, hcut⟩ | ⟨-, hcut⟩ | ⟨n, hcut⟩
  · rw [hcut]
    refine ⟨fun hword => ?_, fun _ => ⟨List.cons_ne_nil _ _, ?_⟩⟩
    · rcases hword with hword | hword | hword <;> cases hword
    · refine List.forall_mem_cons.mpr ⟨hblank, fun d hd => ?_⟩
      change d ∈ r.take (r.takeWhile isBlank).length at hd
      rw [← List.prefix_iff_eq_take.mp (List.takeWhile_prefix _)] at hd
      exact of_mem_takeWhile hd
  · rw [hcut]
    refine ⟨fun hword => ?_, fun hnone => by cases hnone⟩
    have hlabel : some k = some .selector ∨ some k = some .property ∨ some k = some .value := hword
    rcases hlabel with hk' | hk' | hk' <;> obtain rfl := Option.some.inj hk' <;> simp at hk
  · rw [hcut]
    refine ⟨fun hword => ?_, fun hnone => by cases hnone⟩
    rcases hword with hword | hword | hword <;> cases hword
  · rw [hcut]
    refine ⟨fun _ => ?_, fun hnone => by cases hnone⟩
    simpa [Cut.taken, cut] using hfollows.wordClass

/-- The spans in front of the value in `}a:b{p:c:d}`. -/
def beforeValue : List Span :=
  [⟨some .punctuation, ['}']⟩, ⟨some .selector, ['a', ':', 'b']⟩, ⟨some .punctuation, ['{']⟩,
    ⟨some .property, ['p']⟩, ⟨some .punctuation, [':']⟩]

/-- A stray brace counts for nothing, and of three colons only that behind the property is a mark. -/
theorem classes_follow_braces_three_colons :
    spans "\x7da:b\x7bp:c:d\x7d".toList =
        beforeValue ++ ⟨some .value, ['c', ':', 'd']⟩ :: [⟨some .punctuation, ['}']⟩] ∧
      depth beforeValue = 1 ∧ BehindColon beforeValue := by
  have hspans : spans "\x7da:b\x7bp:c:d\x7d".toList =
      beforeValue ++ ⟨some .value, ['c', ':', 'd']⟩ :: [⟨some .punctuation, ['}']⟩] := by
    decide +kernel
  obtain ⟨hclass, -⟩ := classes_follow_braces hspans
  have hinside : 0 < depth beforeValue := by decide
  obtain ⟨hvalue, -⟩ := (hclass (.inr (.inr rfl))).2 hinside
  exact ⟨hspans, rfl, hvalue.mp rfl⟩

end Markdown.Highlight.Css
