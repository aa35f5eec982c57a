import Markdown.Proofs.InlineGuard
import Markdown.Proofs.Spans

/-!
# Highlighted code is guarded

Every `<` and every `&` in the HTML of a built-in highlighter is the first character of a tag of the
highlighters or of a character reference: the highlighters write spans, whose text is written for HTML.
-/

namespace Markdown

open Text Html

namespace Highlight

/-- The names of the classes of spans. -/
def classNames : List Text :=
  ["keyword".toList, "string".toList, "number".toList, "boolean".toList, "null".toList,
    "comment".toList, "punctuation".toList, "key".toList, "template".toList, "operator".toList,
    "regex".toList, "variable".toList, "selector".toList, "property".toList, "value".toList,
    "at-rule".toList, "tag".toList, "attribute".toList, "doctype".toList]

/-- The opening tag of the class with a name. -/
def classTag (name : Text) : Text :=
  "<span class=\"syntax-".toList ++ name ++ "\">".toList

/-- The tags of the highlighters, that of a swatch up to its colour. -/
def tags : List Text :=
  classNames.map classTag ++
    ["<span class=\"color-preview\" style=\"--swatch-color: ".toList, "</span>".toList]

/-- The openings in highlighted code. -/
def openings : List Text :=
  entities ++ tags

theorem openings_facts :
    (classNames.map classTag).all (isGuarded openings) = true ∧
      isGuarded openings "</span>".toList = true ∧
      isGuarded openings "<span class=\"color-preview\" style=\"--swatch-color: ".toList = true ∧
      areCuts openings ['<'] = true ∧ openings.all (fun o => !o.dropLast.contains '>') = true ∧
      openings.all Inline.hashBehindAmp = true := by
  unfold openings tags classNames classTag entities
  repeat rw [String.toList_ofList]
  decide +kernel

theorem guarded_escape (t : Text) : Guarded openings (escape t) :=
  (Inline.guarded_escape t).mono (List.subset_append_left _ _)

/-! ### Spans -/

theorem guarded_swatch {digits : Text} (h : ∀ d ∈ digits, isHexDigit d = true) :
    Guarded openings (swatch ('#' :: digits)) := by
  have hcolor : Guarded openings ('#' :: digits) := Inline.guarded_color h
  obtain ⟨-, hclose, hhead, -⟩ := openings_facts
  have hmiddle : Guarded openings "\">".toList :=
    guarded_of_isGuarded (by rw [String.toList_ofList]; decide +kernel)
  exact ((((guarded_of_isGuarded hhead).append hcolor).append hmiddle).append hcolor).append
    (guarded_of_isGuarded hclose)

theorem swatchRule_eq_some {before : Option Char} {c : Char} {r : Text} {hit : Hit}
    (h : swatchRule before c r = some hit) :
    ∃ digits rest, Inline.colorAfter before = true ∧ hit.Takes c r ('#' :: digits) rest ∧
      hit.text = swatch ('#' :: digits) ∧ (digits.length = 3 ∨ digits.length = 6) ∧
      ∀ d ∈ digits, isHexDigit d = true := by
  unfold swatchRule at h
  split at h
  · next hc =>
    simp only [Bool.and_eq_true, decide_eq_true_eq] at hc
    obtain ⟨rfl, hbefore⟩ := hc
    obtain ⟨n, hn, rfl⟩ := Option.map_eq_some_iff.mp h
    obtain ⟨hle, hall, -, hsize⟩ := Inline.colorDigits?_eq_some hn
    refine ⟨r.take n, r.drop n, hbefore, Hit.takes_of_length ?_ ?_, rfl, ?_, hall⟩
    · rw [List.cons_append, List.take_append_drop]
    · simp [List.length_take_of_le hle]
    · rwa [List.length_take_of_le hle]
  · cases h

theorem guarded_decorateColors {html : Text} (h : Guarded openings html) :
    Guarded openings (decorateColors html) := by
  refine guarded_flatMap fun p hp => ?_
  obtain ⟨-, -, -, hlt, hends, hhash⟩ := openings_facts
  have hpart := h.of_mem_parts (cuts_of_areCuts hlt (by simp)) hends hp
  split
  · exact hpart
  · refine hpart.replaceBy (List.Subset.refl _) fun before x c r hit hsource hbefore hrule => ?_
    obtain ⟨digits, rest, hafter, htakes, htext, -, hdigits⟩ := swatchRule_eq_some hrule
    obtain ⟨rfl, -⟩ := List.cons.inj htakes.split
    rw [htext]
    exact ⟨Inline.guarded_before_color hhash hsource hbefore hafter,
      guarded_swatch hdigits⟩

/-- A highlighter that writes guarded HTML when it has no predicate for nested JSON. -/
def Highlighter.Guards (h : Highlighter) : Prop :=
  ∀ code, Guarded openings (h none code).value

theorem guarded_highlight {r : Registry} (hr : ∀ e ∈ r, e.2.Guards) (language : Option Text)
    (swatches : Bool) (code : Text) :
    Guarded openings (r.highlight language none swatches code).value := by
  have hhtml : ∀ h, r.find? language = some h → h.Guards := by
    intro h hfind
    obtain ⟨e, he, rfl⟩ := Option.map_eq_some_iff.mp hfind
    exact hr e (List.mem_of_find?_eq_some he)
  unfold Registry.highlight
  split
  · exact guarded_nil
  · cases hfind : r.find? language with
    | none =>
      dsimp only [Report.value_bind, Report.value_pure]
      split
      · exact guarded_decorateColors (guarded_escape code)
      · exact guarded_escape code
    | some h =>
      dsimp only [Report.value_bind, Report.value_pure]
      split
      · exact guarded_decorateColors (hhtml h hfind code)
      · exact hhtml h hfind code

end Highlight

end Markdown
