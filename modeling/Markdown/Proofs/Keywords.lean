import Markdown.Highlight.Registry
import Markdown.Proofs.Characters
import Markdown.Proofs.Runs
import Mathlib.Data.List.Forall2

/-!
# Further keywords

The scanner for scripts takes further keywords, which is how TypeScript differs from JavaScript. They
change the classes of words only: the spans are those of JavaScript, and a name without a class that is
one of the further keywords is a keyword (`Script.spans_eq_map`). In particular they never decide whether
a slash opens a regular expression, since every keyword in front of an expression is a keyword of both
languages (`Script.mem_keywords`).
-/

namespace Markdown.Highlight.Script

open Text

variable {extra : List Text} {word : Text} {c : Char} {r : Text}

/-! ### Words -/

/-- Every keyword in front of an expression is a keyword of both languages. -/
theorem mem_keywords (h : word ∈ expressionKeywords) : word ∈ keywords := by
  have hall : (expressionKeywords.all fun w => keywords.contains w) = true := by decide +kernel
  simpa using List.all_eq_true.mp hall word h

/-- Only a word without a class gets one from further keywords. -/
theorem wordClass_eq (extra : List Text) (word : Text) :
    wordClass extra word =
      if wordClass [] word = none ∧ word ∈ extra then some .keyword else wordClass [] word := by
  unfold wordClass
  by_cases htruth : truthWords.contains word = true
  · rw [if_pos htruth, if_pos htruth, if_neg (by simp)]
  by_cases hnull : nullWords.contains word = true
  · rw [if_neg htruth, if_neg htruth, if_pos hnull, if_pos hnull, if_neg (by simp)]
  rw [if_neg htruth, if_neg htruth, if_neg hnull, if_neg hnull]
  by_cases hkeyword : keywords.contains word = true
  · rw [hkeyword]
    simp
  · rw [Bool.eq_false_iff.mpr hkeyword]
    simp

/-- Whether an expression may start behind a word does not depend on further keywords. -/
theorem expression_eq (extra : List Text) (word : Text) :
    (decide (wordClass extra word = some .keyword) && expressionKeywords.contains word) =
      (decide (wordClass [] word = some .keyword) && expressionKeywords.contains word) := by
  by_cases hexpression : word ∈ expressionKeywords
  · have hclass : wordClass [] word ≠ none := by
      unfold wordClass
      simp only [List.contains_iff_mem.mpr (mem_keywords hexpression), Bool.true_or, if_true]
      split
      · simp
      · split <;> simp
    rw [wordClass_eq extra, if_neg fun h => hclass h.1]
  · simp [hexpression]

/-! ### Steps -/

/-- A text that starts like a name. -/
def isName (t : Text) : Bool :=
  (t.head?.map startsName).getD false

/-- The class that a span has with further keywords, given its class without them. -/
def classWith (extra : List Text) (p : Span) : Option SpanClass :=
  if p.label = none ∧ isName p.text = true ∧ extra.contains p.text = true then some .keyword else p.label

/-- A name has the class that the scanner gives it with further keywords. -/
theorem classWith_word (h : isName word = true) :
    classWith extra ⟨wordClass [] word, word⟩ = wordClass extra word := by
  rw [wordClass_eq extra, classWith]
  simp [h]

theorem classWith_of_text {p : Span} (h : isName p.text = false) : classWith extra p = p.label :=
  if_neg fun hname => by simp [h] at hname

/-- A name does not start with a blank. -/
theorem startsName_of_isBlank (h : isBlank c = true) : startsName c = false := by
  have hword : isWord c = false := by
    rw [Bool.eq_false_iff]
    intro hword
    rw [isBlank_of_isWord hword] at h
    cases h
  have hdollar : c ≠ '$' := by
    rintro rfl
    cases h
  simp [startsName, hword, hdollar]

/-- A cut with the class that further keywords give to its segment. -/
def cutWith (extra : List Text) (c : Char) (r : Text) (found : Cut Bool (Option SpanClass)) :
    Cut Bool (Option SpanClass) :=
  ⟨found.extra, classWith extra (found.taken c r), found.state⟩

/-- A step with further keywords cuts as one without them and goes on in the same state. -/
theorem step_extra (extra : List Text) (expression : Bool) (c : Char) (r : Text) :
    step extra expression c r = cutWith extra c r (step [] expression c r) := by
  have hplain : ∀ n s, startsName c = false → cut n none s = cutWith extra c r (cut n none s) := by
    intro n s hname
    have htext : isName ((cut n none s : Cut Bool (Option SpanClass)).taken c r).text = false := hname
    rw [cutWith, classWith_of_text htext]
    rfl
  unfold step
  split
  · next hblank => exact hplain _ _ (startsName_of_isBlank hblank)
  split
  · rfl
  split
  · rfl
  split
  · rfl
  split
  · rfl
  split
  · rfl
  extract_lets number
  split
  · rfl
  split
  · next hname =>
    have hclass : classWith extra
        ⟨wordClass [] (c :: r.take (runLength isNameChar r)), c :: r.take (runLength isNameChar r)⟩ =
          wordClass extra (c :: r.take (runLength isNameChar r)) := classWith_word hname
    rw [expression_eq extra, ← hclass]
    rfl
  split
  · rfl
  · next hname _ =>
    split
    · rfl
    · exact hplain _ _ (Bool.eq_false_iff.mpr hname)

/-! ### Texts -/

/-- The same spans, with the classes that further keywords give. -/
theorem spans_eq_map (extra : List Text) (code : Text) :
    spans extra code = (spans [] code).map fun p => ⟨classWith extra p, p.text⟩ :=
  segment_relabel (step_extra extra) true code

/-- What a span is with further keywords, beside the same span without them. -/
structure Promotes (extra : List Text) (plain p : Span) : Prop where
  /-- The text is the same. -/
  text_eq : p.text = plain.text
  /-- Another class is that of a keyword, for one of the further words, which had no class. -/
  changed : p.label ≠ plain.label →
    plain.label = none ∧ plain.text ∈ extra ∧ p.label = some .keyword
  /-- A name without a class that is one of the further words is a keyword. -/
  keyword : plain.label = none → isName plain.text = true → plain.text ∈ extra →
    p.label = some .keyword
  /-- Regular expressions, operators and all others but keywords are the same. -/
  others : ∀ k, k ≠ .keyword → (p.label = some k ↔ plain.label = some k)

theorem promotes_classWith (extra : List Text) (p : Span) :
    Promotes extra p ⟨classWith extra p, p.text⟩ := by
  by_cases h : p.label = none ∧ isName p.text = true ∧ extra.contains p.text = true
  · have hclass : classWith extra p = some .keyword := if_pos h
    obtain ⟨hnone, -, hextra⟩ := h
    refine ⟨rfl, fun _ => ⟨hnone, List.contains_iff_mem.mp hextra, hclass⟩, fun _ _ _ => hclass,
      fun k hk => ?_⟩
    simp [hclass, hnone, hk.symm]
  · have hclass : classWith extra p = p.label := if_neg h
    refine ⟨rfl, fun hne => absurd hclass hne, fun hnone hname hextra => ?_, fun k _ => ?_⟩
    · exact absurd ⟨hnone, hname, List.contains_iff_mem.mpr hextra⟩ h
    · rw [hclass]

/-- A span of JavaScript in TypeScript. -/
def typed (p : Span) : Span :=
  if p.label = none ∧ typeKeywords.contains p.text = true then ⟨some .keyword, p.text⟩ else p

/-- All keywords of TypeScript are names. -/
theorem isName_of_contains_typeKeywords (h : typeKeywords.contains word = true) : isName word = true := by
  have hall : typeKeywords.all isName = true := by decide +kernel
  exact List.all_eq_true.mp hall word (List.contains_iff_mem.mp h)

theorem typed_eq (p : Span) : typed p = ⟨classWith typeKeywords p, p.text⟩ := by
  unfold typed classWith
  by_cases h : p.label = none ∧ typeKeywords.contains p.text = true
  · rw [if_pos h, if_pos ⟨h.1, isName_of_contains_typeKeywords h.2, h.2⟩]
  · rw [if_neg h, if_neg fun hname => h ⟨hname.1, hname.2.2⟩]

/-- **Further keywords change classes only.** With any further keywords, a script has the same texts of
spans in the same order. A span differs only if it had no class and is one of the further words; then it
is a keyword. All other classes stay, so each slash opens a regular expression or divides as before.
In this way TypeScript is JavaScript with its own keywords. -/
theorem keywords_change_classes_only (extra : List Text) (code : Text) :
    (spans extra code).map Segment.text = (spans [] code).map Segment.text ∧
    List.Forall₂ (Promotes extra) (spans [] code) (spans extra code) ∧
    ∀ expanded, ofSpans (spans typeKeywords) expanded code =
      pure (spansHtml ((spans [] code).map typed)) := by
  refine ⟨?_, ?_, fun expanded => ?_⟩
  · rw [spans_eq_map extra, List.map_map]
    rfl
  · rw [spans_eq_map extra, List.forall₂_map_right_iff, List.forall₂_same]
    exact fun p _ => promotes_classWith extra p
  · rw [ofSpans, spans_eq_map typeKeywords, funext typed_eq]

/-- No expression starts behind `type`, keyword or not. -/
example : (spans typeKeywords "type/a".toList).map Segment.label =
    [some .keyword, some .operator, none] := by
  decide +kernel

end Markdown.Highlight.Script
