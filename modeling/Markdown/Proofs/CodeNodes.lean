import Markdown.Proofs.Lossless
import Markdown.Proofs.Written

/-!
# The tree of highlighted code

The pieces that highlighting answers with are the written form of some nodes, and the text of these
nodes is the code (`Highlight.exists_isCode`). Pieces are not nodes themselves: neighbouring
runs of text are one node, and empty runs are none.
-/

namespace Markdown

open Html

namespace Highlight

/-- Nodes of preformatted text that are written as some HTML, and whose text is some code. -/
structure IsCode (ns : List Node) (html code : Text) : Prop where
  /-- They are written as the HTML. -/
  writes_eq : Node.writes ns = html
  /-- They are read back. -/
  areWritten : Node.areWritten true ns = true
  /-- Their text is the code. -/
  textsWhere_eq : ∀ p : TextKind → Bool, p .plain = true → Node.textsWhere p ns = code

theorem isCode_nil : IsCode [] [] [] :=
  ⟨rfl, rfl, fun _ _ => rfl⟩

variable {ns : List Node} {html code : Text}

/-- Text in front of nodes joins a text at their beginning. -/
theorem IsCode.text (h : IsCode ns html code) (t : Text) :
    ∃ ms, IsCode ms (escape t ++ html) (t ++ code) := by
  obtain ⟨rfl, areWritten, textsWhere_eq⟩ := h
  by_cases hempty : t = []
  · subst hempty
    exact ⟨ns, rfl, areWritten, textsWhere_eq⟩
  · have hne : t.isEmpty = false := by simpa using hempty
    match ns with
    | [] =>
      refine ⟨[.text .plain t], rfl, ?_, fun p hp => ?_⟩
      · simp [Node.areWritten, Node.isWritten, hne, Node.beginWithText]
      · have hcode := textsWhere_eq p hp
        simp only [Node.textsWhere] at hcode
        simp [Node.textsWhere, Node.textWhere, hp, ← hcode]
    | .text kind s :: r =>
      have hkind : kind = .plain := by
        simp [Node.areWritten, Node.isWritten] at areWritten
        exact areWritten.1.1.1
      subst hkind
      refine ⟨.text .plain (t ++ s) :: r, ?_, ?_, fun p hp => ?_⟩
      · simp [Node.writes, Node.write]
      · simp only [Node.areWritten, Node.isWritten, Bool.and_eq_true] at areWritten ⊢
        refine ⟨⟨⟨⟨areWritten.1.1.1.1, ?_⟩, areWritten.1.1.2⟩, areWritten.1.2⟩, areWritten.2⟩
        simp [hempty]
      · have hcode := textsWhere_eq p hp
        simp only [Node.textsWhere, Node.textWhere, hp, if_true] at hcode ⊢
        rw [← hcode, List.append_assoc]
    | .element tag children :: r =>
      refine ⟨.text .plain t :: .element tag children :: r, rfl, ?_, fun p hp => ?_⟩
      · rw [Node.areWritten, areWritten]
        simp [Node.isWritten, hne, Node.beginWithText]
      · rw [Node.textsWhere, textsWhere_eq p hp]
        simp [Node.textWhere, hp]

/-- A tag around code. -/
theorem IsCode.element (h : IsCode ns html code) {inner : List Node} {innerHtml innerCode : Text}
    (hinner : IsCode inner innerHtml innerCode) (tag : Tag) (htag : tag.isWritten = true)
    (hempty : tag.isEmptyElement = false) :
    IsCode (.element tag inner :: ns) (tag.startText ++ (innerHtml ++ (tag.endText ++ html)))
      (innerCode ++ code) := by
  obtain ⟨rfl, areWritten, textsWhere_eq⟩ := h
  obtain ⟨rfl, innerWritten, innerTexts⟩ := hinner
  refine ⟨?_, ?_, fun p hp => ?_⟩
  · simp [Node.writes, Node.write, hempty]
  · simp [Node.areWritten, Node.isWritten, Node.beginWithText, htag, hempty, innerWritten,
      areWritten]
  · rw [Node.textsWhere, Node.textWhere, innerTexts p hp, textsWhere_eq p hp]

/-- The element of a class. -/
def classElement (c : SpanClass) : Tag :=
  ⟨"span".toList, [("class".toList, "syntax-".toList ++ c.name)]⟩

/-- The element of a swatch. -/
def swatchElement (color : Text) : Tag :=
  ⟨"span".toList, [("class".toList, "color-preview".toList),
    ("style".toList, "--swatch-color: ".toList ++ color)]⟩

theorem startText_classElement (c : SpanClass) : (classElement c).startText = classTag c.name := by
  cases c <;> decide +kernel

theorem startText_swatchElement {digits : Text} (hex : ∀ d ∈ digits, Text.isHexDigit d = true) :
    (swatchElement ('#' :: digits)).startText = swatchTag ('#' :: digits) := by
  have hvalue : escape ("--swatch-color: ".toList ++ '#' :: digits) =
      "--swatch-color: ".toList ++ '#' :: digits := by
    have hname : escape "--swatch-color: ".toList = "--swatch-color: ".toList := by decide +kernel
    rw [escape_append, escape_color hex, hname]
  have hstyle : valueText ("--swatch-color: ".toList ++ '#' :: digits) =
      '=' :: '"' :: ("--swatch-color: ".toList ++ '#' :: digits ++ ['"']) := by
    rw [valueText, hvalue, if_neg (by simp)]
  have hclass : valueText "color-preview".toList = "=\"color-preview\"".toList := by decide +kernel
  have hempty : (swatchElement ('#' :: digits)).isEmptyElement = false := by rfl
  rw [Tag.startText, hempty]
  unfold swatchElement swatchTag
  simp only [attributesText, hstyle, hclass]
  generalize '#' :: digits = color
  repeat rw [String.toList_ofList]
  simp

theorem IsCode.run (h : IsCode ns html code) (r : Run) :
    ∃ ms, IsCode ms (r.html ++ html) (r.code ++ code) := by
  cases r with
  | plain t => exact h.text t
  | color digits size hex =>
    obtain ⟨inner, hinner⟩ := isCode_nil.text ('#' :: digits)
    have hswatch := h.element hinner (swatchElement ('#' :: digits)) (by rfl) (by rfl)
    rw [startText_swatchElement hex, escape_color hex, List.append_nil] at hswatch
    refine ⟨.element (swatchElement ('#' :: digits)) inner :: ns, ?_⟩
    rw [Run.html, swatch_eq, List.append_assoc, List.append_assoc]
    exact hswatch

theorem IsCode.runs (h : IsCode ns html code) (runs : List Run) :
    ∃ ms, IsCode ms (runs.flatMap Run.html ++ html) (runs.flatMap Run.code ++ code) := by
  induction runs with
  | nil => exact ⟨ns, h⟩
  | cons r runs ih =>
    obtain ⟨ms, hms⟩ := ih
    obtain ⟨ks, hks⟩ := hms.run r
    exact ⟨ks, by simpa using hks⟩

theorem IsCode.piece (h : IsCode ns html code) (p : Piece) :
    ∃ ms, IsCode ms (p.html ++ html) (p.code ++ code) := by
  obtain ⟨label, runs⟩ := p
  cases label with
  | none => exact h.runs runs
  | some c =>
    obtain ⟨inner, hinner⟩ := isCode_nil.runs runs
    have hspan := h.element hinner (classElement c) (by rfl) (by rfl)
    rw [startText_classElement, List.append_nil, List.append_nil] at hspan
    refine ⟨.element (classElement c) inner :: ns, ?_⟩
    show IsCode _ (wrap c (runs.flatMap Run.html) ++ html) _
    rw [wrap_eq, List.append_assoc, List.append_assoc]
    exact hspan

/-- Pieces are the written form of some nodes. -/
theorem exists_isCode (ps : List Piece) :
    ∃ ns, IsCode ns (ps.flatMap Piece.html) (ps.flatMap Piece.code) := by
  induction ps with
  | nil => exact ⟨[], isCode_nil⟩
  | cons p ps ih =>
    obtain ⟨ns, hns⟩ := ih
    exact hns.piece p

end Highlight

end Markdown
