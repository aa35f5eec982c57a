import Markdown.Proofs.DefinitionForms
import Markdown.Proofs.Fences

/-!
# Taking definitions out of a text

Extraction undoes the writing of definitions (`extract_sourceLines`): from lines that were written as
definitions, or have no form of one, it takes the definitions in order and leaves the other lines. What
it leaves has no definition for it any more (`extract_extract`). The lines that go out are no fences, so
the flag that the scan carries is at each line that stays what it was before, and the line is read as it
was.
-/

namespace Markdown.References

open Text

variable {fenced : Bool} {l : Text} {lines : List Text} {d : DefinitionLine}

/-! ### One line -/

/-- What is taken out at a line. -/
def takenAt (fenced : Bool) (l : Text) : Option DefinitionLine :=
  if Line.isFence l || fenced then none else definitionLine? l

/-- A line that is taken out has a definition, and the flag stays as it is. -/
theorem of_takenAt_eq_some (h : takenAt fenced l = some d) :
    Line.isFence l = false ∧ fenced = false ∧ definitionLine? l = some d := by
  obtain ⟨hplain, h⟩ := Option.ite_none_left_eq_some.mp h
  simp only [Bool.or_eq_true, not_or, Bool.not_eq_true] at hplain
  exact ⟨hplain.1, hplain.2, h⟩

theorem taken_cons (fenced : Bool) (l : Text) (r : List Text) :
    taken fenced (l :: r) = takenAt fenced l :: taken (fenced ^^ Line.isFence l) r := by
  rw [taken, takenAt]
  cases Line.isFence l <;> cases fenced <;> rfl

theorem kept_cons_none (h : takenAt fenced l = none) (r : List Text) :
    kept fenced (l :: r) = l :: kept (fenced ^^ Line.isFence l) r := by
  simp [kept, taken_cons, h]

theorem kept_cons_some (h : takenAt fenced l = some d) (r : List Text) :
    kept fenced (l :: r) = kept fenced r := by
  obtain ⟨hfence, rfl, -⟩ := of_takenAt_eq_some h
  simp [kept, taken_cons, h, hfence]

theorem extractLines_cons_none (s : References) (h : takenAt fenced l = none) (r : List Text) :
    s.extractLines fenced (l :: r) =
      let rest := s.extractLines (fenced ^^ Line.isFence l) r
      (l :: rest.1, rest.2) := by
  rw [extractLines]
  cases hfence : Line.isFence l with
  | true => cases fenced <;> rfl
  | false =>
    cases fenced with
    | true => rfl
    | false =>
      have hnone : definitionLine? l = none := by simpa [takenAt, hfence] using h
      simp [hnone]

theorem extractLines_cons_some (s : References) (h : takenAt fenced l = some d) (r : List Text) :
    s.extractLines fenced (l :: r) = (s.define d).extractLines fenced r := by
  obtain ⟨hfence, rfl, hd⟩ := of_takenAt_eq_some h
  rw [extractLines, hfence, hd]
  rfl

/-! ### Writing definitions -/

/-- A line as it is written: a definition, or anything else. -/
inductive SourceLine where
  /-- The definition of a link. -/
  | link (w : WrittenLink)
  /-- The definition of a footnote. -/
  | note (w : WrittenNote)
  /-- Another line. -/
  | other (line : Text)

namespace SourceLine

/-- The line. -/
def line : SourceLine → Text
  | link w => w.line
  | note w => w.line
  | other line => line

/-- What is defined by the line. -/
def definition? : SourceLine → Option DefinitionLine
  | link w => some w.definition
  | note w => some w.definition
  | other _ => none

/-- The line, if it defines nothing. -/
def other? : SourceLine → Option Text
  | other line => some line
  | _ => none

/-- One line that says what it defines: the address of a link has no angle bracket, and a line that
defines nothing has no form of a definition and is no fence. -/
def IsValid : SourceLine → Prop
  | link w => '\n' ∉ w.line ∧ '<' ∉ w.url
  | note w => '\n' ∉ w.line
  | other l => '\n' ∉ l ∧ ¬ HasForm l ∧ Line.isFence l = false

variable {a : SourceLine}

theorem IsValid.newline_notMem (h : a.IsValid) : '\n' ∉ a.line := by
  cases a with
  | link w => exact h.1
  | note w => exact h
  | other l => exact h.1

theorem takenAt_of_definitionLine? (h : definitionLine? l = some d) : takenAt false l = some d := by
  have hfence : Line.isFence l = false := by
    by_contra hfence
    rw [Document.definitionLine?_of_isFence (by simpa using hfence)] at h
    cases h
  rw [takenAt, hfence]
  exact h

/-- At such a line its definition is taken out. -/
theorem IsValid.takenAt_line (h : a.IsValid) : takenAt false a.line = a.definition? := by
  cases a with
  | link w =>
    refine takenAt_of_definitionLine? (definitionLine?_writtenLink w fun _ hhead => ?_)
    exact absurd (List.mem_of_mem_head? hhead) h.2
  | note w => exact takenAt_of_definitionLine? (definitionLine?_writtenNote w)
  | other l =>
    show takenAt false l = none
    rw [takenAt, h.2.2]
    exact definitionLine?_eq_none_iff.mpr h.2.1

theorem IsValid.of_definition?_eq_none (h : a.IsValid) (hnone : a.definition? = none) :
    Line.isFence a.line = false ∧ a.other? = some a.line := by
  cases a with
  | link w => cases hnone
  | note w => cases hnone
  | other l => exact ⟨h.2.2, rfl⟩

theorem other?_of_definition? (h : a.definition? = some d) : a.other? = none := by
  cases a with
  | link w => rfl
  | note w => rfl
  | other l => cases h

end SourceLine

/-- The definitions are taken from the lines in order. -/
theorem extractLines_sourceLines (s : References) {source : List SourceLine}
    (h : ∀ a ∈ source, a.IsValid) :
    s.extractLines false (source.map SourceLine.line) =
      (source.filterMap SourceLine.other?,
        (source.filterMap SourceLine.definition?).foldl define s) := by
  induction source generalizing s with
  | nil => rfl
  | cons a source ih =>
    obtain ⟨ha, hsource⟩ := List.forall_mem_cons.mp h
    have htaken := ha.takenAt_line
    cases hdefinition : a.definition? with
    | none =>
      obtain ⟨hfence, hother⟩ := ha.of_definition?_eq_none hdefinition
      rw [List.map_cons, extractLines_cons_none s (htaken.trans hdefinition), hfence, Bool.xor_false,
        ih s hsource, List.filterMap_cons_some hother, List.filterMap_cons_none hdefinition]
    | some d =>
      rw [List.map_cons, extractLines_cons_some s (htaken.trans hdefinition), ih _ hsource,
        List.filterMap_cons_none (SourceLine.other?_of_definition? hdefinition),
        List.filterMap_cons_some hdefinition]
      rfl

theorem extract_nil (s : References) : s.extract [] = ([], s) := rfl

/-- **Extraction undoes the writing of definitions.** From lines that are written as definitions, or
have no form of one and are no fences, it takes the definitions one after another, and leaves the other
lines in order. -/
theorem extract_sourceLines (s : References) {source : List SourceLine}
    (h : ∀ a ∈ source, a.IsValid) :
    s.extract (unlines (source.map SourceLine.line)) =
      (unlines (source.filterMap SourceLine.other?),
        (source.filterMap SourceLine.definition?).foldl define s) := by
  by_cases hsource : source = []
  · subst hsource
    exact extract_nil s
  · have hlines :
        Text.lines (unlines (source.map SourceLine.line)) = source.map SourceLine.line := by
      refine Text.lines_unlines (by simpa using hsource) fun l hl => ?_
      obtain ⟨a, ha, rfl⟩ := List.mem_map.mp hl
      exact (h a ha).newline_notMem
    rw [extract, hlines, extractLines_sourceLines s h]

/-- A link that is defined twice, a footnote, and a line between them. -/
def definedTwice : List SourceLine :=
  [.link ⟨"  ".toList, "Ab".toList, " ".toList, true, "u".toList, true, none, [], by decide, by decide,
      by decide, by decide, by decide, by decide, forall_mem_of_all (by decide), by decide⟩,
    .other "See [ab]".toList,
    .note ⟨[], "n".toList, " ".toList, "note".toList, [], by decide, by decide, by decide, by decide,
      by decide, by decide⟩,
    .link ⟨[], "aB".toList, " ".toList, false, "v".toList, false,
      some ⟨" ".toList, '\'', "a \"b\"".toList, by decide, by decide, by decide, by decide⟩, [],
      by decide, by decide, by decide, by decide, by decide, by decide, forall_mem_of_all (by decide),
      by decide⟩]

/-- The later definition of the link takes the place of the first one. -/
theorem extract_sourceLines_definedTwice :
    (∀ a ∈ definedTwice, a.IsValid) ∧
      References.empty.extract "  [Ab]: <u>\nSee [ab]\n[^n]: note\n[aB]: v 'a \"b\"'".toList =
        ("See [ab]".toList, ⟨[("ab".toList, ⟨"v".toList, some "a \"b\"".toList⟩)],
          [("n".toList, ⟨"n".toList, "note".toList, 1⟩)], 2⟩) := by
  have hother : ¬ HasForm "See [ab]".toList := definitionLine?_eq_none_iff.mp (by decide)
  have hvalid : ∀ a ∈ definedTwice, a.IsValid := by
    simp only [definedTwice, List.forall_mem_cons, SourceLine.IsValid]
    exact ⟨⟨by decide, by decide⟩, ⟨by decide, hother, by decide⟩, by decide, ⟨by decide, by decide⟩,
      by simp⟩
  have hextract := extract_sourceLines References.empty hvalid
  exact ⟨hvalid, hextract.trans (by decide)⟩

/-! ### What is left -/

/-- Nothing is taken from the lines that are left. -/
theorem extractLines_kept (s : References) (fenced : Bool) (lines : List Text) :
    s.extractLines fenced (kept fenced lines) = (kept fenced lines, s) := by
  induction lines generalizing fenced with
  | nil => rfl
  | cons l r ih =>
    cases h : takenAt fenced l with
    | none => rw [kept_cons_none h, extractLines_cons_none s h, ih]
    | some d => rw [kept_cons_some h, ih]

/-- The places of the lines that are left. -/
def keptPlaces (fenced : Bool) (lines : List Text) : List Nat :=
  (List.range lines.length).filter fun i => (taken fenced lines)[i]? = some none

theorem mem_keptPlaces {i : Nat} :
    i ∈ keptPlaces fenced lines ↔ i < lines.length ∧ (taken fenced lines)[i]? = some none := by
  simp [keptPlaces]

theorem keptPlaces_cons (fenced : Bool) (l : Text) (r : List Text) :
    keptPlaces fenced (l :: r) = (if takenAt fenced l = none then [0] else []) ++
      (keptPlaces (fenced ^^ Line.isFence l) r).map (· + 1) := by
  have hbehind : ((fun i => decide ((taken fenced (l :: r))[i]? = some none)) ∘ Nat.succ) =
      fun i => decide ((taken (fenced ^^ Line.isFence l) r)[i]? = some none) := by
    funext i
    rw [taken_cons]
    rfl
  rw [keptPlaces, List.length_cons, List.range_succ_eq_map, List.filter_cons, List.filter_map, hbehind,
    taken_cons, ← keptPlaces]
  cases takenAt fenced l <;> rfl

theorem kept_eq_filterMap (fenced : Bool) (lines : List Text) :
    kept fenced lines = (keptPlaces fenced lines).filterMap (lines[·]?) := by
  induction lines generalizing fenced with
  | nil => rfl
  | cons l r ih =>
    rw [keptPlaces_cons, List.filterMap_append, List.filterMap_map]
    cases h : takenAt fenced l with
    | none =>
      rw [kept_cons_none h, ih]
      rfl
    | some d =>
      obtain ⟨hfence, -⟩ := of_takenAt_eq_some h
      rw [kept_cons_some h, hfence, Bool.xor_false, ih]
      rfl

theorem kept_sublist (fenced : Bool) (lines : List Text) : (kept fenced lines).Sublist lines := by
  induction lines generalizing fenced with
  | nil => exact List.Sublist.refl _
  | cons l r ih =>
    cases h : takenAt fenced l with
    | none =>
      rw [kept_cons_none h]
      exact (ih _).cons_cons l
    | some d =>
      rw [kept_cons_some h]
      exact (ih fenced).cons l

/-- A line stays if it is a fence, or stands behind an odd number of fences, or has no form of a
definition. -/
theorem mem_keptPlaces_iff {i : Nat} (hl : lines[i]? = some l) :
    i ∈ keptPlaces false lines ↔
      Line.isFence l = true ∨ ¬ Even (fences (lines.take i)) ∨ ¬ HasForm l := by
  obtain ⟨hlt, -⟩ := List.getElem?_eq_some_iff.mp hl
  rw [mem_keptPlaces, getElem?_taken, hl, ← definitionLine?_eq_none_iff]
  by_cases hfence : Line.isFence l = true
  · simp [hfence, hlt]
  · by_cases heven : Even (fences (lines.take i)) <;> simp [hfence, heven, hlt]

/-- **Extraction is idempotent.** From what is left of a text nothing more is taken, whatever has been
defined. What is left are some of the lines in order, none twice: the fences, all lines behind an odd
number of fences, and those without the form of a definition. If no line is left, the text is empty. -/
theorem extract_extract (s : References) (t : Text) :
    (∀ s' : References, s'.extract (s.extract t).1 = ((s.extract t).1, s')) ∧
    ∃ places : List Nat, places.Pairwise (· < ·) ∧
      (∀ i l, (Text.lines t)[i]? = some l →
        (i ∈ places ↔
          Line.isFence l = true ∨ ¬ Even (fences ((Text.lines t).take i)) ∨ ¬ HasForm l)) ∧
      let left := places.filterMap ((Text.lines t)[·]?)
      left.Sublist (Text.lines t) ∧ (s.extract t).1 = unlines left ∧
        (left ≠ [] → Text.lines (s.extract t).1 = left) := by
  have hleft := kept_eq_filterMap false (Text.lines t)
  have hsub := kept_sublist false (Text.lines t)
  have htext : (s.extract t).1 = unlines (kept false (Text.lines t)) := by
    rw [extract, extractLines_eq]
  have hlines : kept false (Text.lines t) ≠ [] →
      Text.lines (s.extract t).1 = kept false (Text.lines t) := by
    intro hne
    rw [htext]
    exact Text.lines_unlines hne fun l hl => newline_notMem_of_mem_lines (hsub.subset hl)
  refine ⟨fun s' => ?_, keptPlaces false (Text.lines t), List.pairwise_lt_range.filter _,
    fun i l hl => mem_keptPlaces_iff hl, ?_⟩
  · by_cases hne : kept false (Text.lines t) = []
    · rw [htext, hne]
      exact extract_nil s'
    · rw [extract, hlines hne, extractLines_kept, ← htext]
  · dsimp only
    rw [← hleft]
    exact ⟨hsub, htext, hlines⟩

end Markdown.References
