import Markdown.Proofs.Nesting

/-!
# Levels of headings

Blocks made by hand may have headings of any level. The headings that a document is split into have
levels from 1 to 6, at every depth of nesting.
-/

namespace Markdown

/-- A heading has a level from 1 to 6. -/
def Block.IsLevelled : Block → Prop
  | .heading level _ => 1 ≤ level ∧ level ≤ 6
  | _ => True

theorem Line.hashes?_level {line : Text} {n : Nat} {rest : Text}
    (h : Line.hashes? line = some (n, rest)) : 1 ≤ n ∧ n ≤ 6 := by
  unfold Line.hashes? at h
  dsimp only at h
  split at h
  · split at h
    · next hn =>
      obtain ⟨rfl, -⟩ := Prod.mk.inj (Option.some.inj h)
      simp only [Bool.and_eq_true, decide_eq_true_eq] at hn
      exact hn.1
    · cases h
  · cases h

theorem Heading.underlineLevel?_level {line : Text} {level : Int}
    (h : underlineLevel? line = some level) : 1 ≤ level ∧ level ≤ 6 := by
  unfold underlineLevel? at h
  split at h
  · split at h
    · obtain rfl := Option.some.inj h
      split <;> constructor <;> omega
    · cases h
  · cases h

theorem Shape.isLevelled_of_recogniser {s : Shape} (hs : s ≠ .list) {number : Nat} {line : Text}
    {rest : List Text} {m : Match} (h : s.recogniser number line rest = some m) :
    m.block.IsLevelled := by
  unfold recogniser at h
  cases s with
  | fencedCode =>
    obtain ⟨-, rfl⟩ := Fence.recognise_eq_some h
    trivial
  | hashHeading =>
    obtain ⟨n, behind, body, hhashes, -, -, rfl⟩ := Heading.recognise_eq_some h
    obtain ⟨hle, hge⟩ := Line.hashes?_level hhashes
    exact ⟨by omega, by omega⟩
  | underlinedHeading =>
    obtain ⟨next, more, level, -, -, hlevel, rfl⟩ := Heading.recogniseUnderlined_eq_some h
    exact Heading.underlineLevel?_level hlevel
  | rule =>
    obtain ⟨-, rfl⟩ := Heading.recogniseRule_eq_some h
    trivial
  | quote => cases h
  | table =>
    obtain ⟨separator, more, alignments, -, -, -, rfl⟩ := Table.recognise_eq_some h
    trivial
  | glossary =>
    obtain ⟨-, rfl⟩ := Glossary.recognise_eq_some h
    trivial
  | list => exact absurd rfl hs
  | indentedCode =>
    obtain ⟨code, -, -, rfl⟩ := Fence.recogniseIndented_eq_some h
    trivial
  | json =>
    obtain ⟨n, -, -, rfl⟩ := Data.recogniseJson_eq_some h
    trivial
  | yaml =>
    obtain ⟨-, -, notes, rfl, -⟩ := Data.recogniseYaml_eq_some h
    trivial

/-- Headings of levels other than 1 to 6 are never made. -/
theorem Document.yields_isLevelled (structured : Bool) :
    Yields structured (fun _ => True) Block.IsLevelled where
  tail _ _ _ := trivial
  quoted _ _ _ _ _ := trivial
  leaf _ _ _ _ _ hs _ _ h := Shape.isLevelled_of_recogniser hs h
  paragraph _ _ _ _ := trivial
  list _ _ _ _ _ _ := trivial
  quote _ _ _ := trivial

end Markdown
