import Markdown.Document

/-!
# What each recogniser finds

For each recogniser, what has to be true of the lines when it answers, and its answer. Facts about the
blocks of a document go by these lemmas and do not open the recognisers again.
-/

namespace Markdown

variable {number : Nat} {line : Text} {rest : List Text} {m : Match}

/-! ### Code -/

theorem Fence.recognise_eq_some (h : Fence.recognise number line rest = some m) :
    Line.isFence line = true ∧
      m = ⟨.code (Text.trim ((Text.trimStart line).drop 3))
          (Text.unlines (rest.takeWhile fun l => !Line.isFence l)) false,
        (rest.takeWhile fun l => !Line.isFence l).length +
          (if (rest.takeWhile fun l => !Line.isFence l).length < rest.length then 1 else 0), []⟩ := by
  unfold Fence.recognise at h
  split at h
  · next hfence => exact ⟨hfence, (Option.some.inj h).symm⟩
  · cases h

theorem Fence.recogniseIndented_eq_some (h : Fence.recogniseIndented number line rest = some m) :
    ∃ code, Fence.unindent? line = some code ∧
      Fence.dropBlankEnd (code :: Fence.indentedBody rest) ≠ [] ∧
      m = ⟨.code [] (Text.unlines (Fence.dropBlankEnd (code :: Fence.indentedBody rest))) false,
        (Fence.indentedBody rest).length, []⟩ := by
  unfold Fence.recogniseIndented at h
  split at h
  · cases h
  · next code hcode =>
    dsimp only at h
    split at h
    · cases h
    · next hshown => exact ⟨code, hcode, by simpa using hshown, (Option.some.inj h).symm⟩

/-! ### Headings and thematic breaks -/

theorem Heading.recognise_eq_some (h : Heading.recognise number line rest = some m) :
    ∃ n behind body, Line.hashes? line = some (n, behind) ∧
      Line.body? (Text.trimStart behind) = some body ∧ Text.trim body ≠ [] ∧
      m = ⟨.heading n (Text.trim body), 0, []⟩ := by
  unfold Heading.recognise at h
  split at h
  · cases h
  · next n behind hhashes =>
    split at h
    · cases h
    · next body hbody =>
      dsimp only at h
      split at h
      · cases h
      · next hne => exact ⟨n, behind, body, hhashes, hbody, by simpa using hne, (Option.some.inj h).symm⟩

theorem Heading.recogniseUnderlined_eq_some
    (h : Heading.recogniseUnderlined number line rest = some m) :
    ∃ next more level, rest = next :: more ∧ Text.allBlank line = false ∧
      Heading.underlineLevel? next = some level ∧ m = ⟨.heading level (Text.trim line), 1, []⟩ := by
  unfold Heading.recogniseUnderlined at h
  split at h
  · cases h
  · next next more =>
    split at h
    · cases h
    · next hline =>
      obtain ⟨level, hlevel, rfl⟩ := Option.map_eq_some_iff.mp h
      simp only [Bool.or_eq_true, not_or, Bool.not_eq_true] at hline
      exact ⟨next, more, level, rfl, hline.1.1, hlevel, rfl⟩

theorem Heading.recogniseRule_eq_some (h : Heading.recogniseRule number line rest = some m) :
    Line.isRule line = true ∧ m = ⟨.rule, 0, []⟩ := by
  unfold Heading.recogniseRule at h
  split at h
  · next hrule => exact ⟨hrule, (Option.some.inj h).symm⟩
  · cases h

/-! ### Tables and definition lists -/

theorem Table.recognise_eq_some (h : Table.recognise number line rest = some m) :
    ∃ separator more alignments, rest = separator :: more ∧ '|' ∈ line ∧
      Row.alignments? separator = some alignments ∧
      m = ⟨.table (Row.cells line) alignments ((more.takeWhile Table.isRow).map Row.cells),
        (more.takeWhile Table.isRow).length + 1, []⟩ := by
  unfold Table.recognise at h
  split at h
  · cases h
  · next separator more =>
    split at h
    · next hpipe =>
      split at h
      · cases h
      · next alignments halignments =>
        exact ⟨separator, more, alignments, rfl, hpipe, halignments, (Option.some.inj h).symm⟩
    · cases h

theorem Glossary.recognise_eq_some (h : Glossary.recognise number line rest = some m) :
    Glossary.startsEntry (line :: rest) = true ∧
      m = ⟨.definitions (Glossary.entries (line :: rest)).1,
        (Glossary.entries (line :: rest)).2 - 1, []⟩ := by
  unfold Glossary.recognise at h
  split at h
  · next hstart => exact ⟨hstart, (Option.some.inj h).symm⟩
  · cases h

/-! ### Lists -/

theorem Listing.recognise_eq_some (h : Listing.recognise number line rest = some m) :
    ∃ marker, Line.marker? line = some marker ∧
      let entries := Listing.collect (Line.indent line) marker.ordered [Listing.item marker] rest
      m = ⟨Listing.list marker (Listing.start marker).value entries.value.items,
        entries.value.taken, (Listing.start marker).notes ++ entries.notes⟩ := by
  unfold Listing.recognise Listing.recogniseFrom at h
  split at h
  · cases h
  · next marker hmarker =>
    dsimp only at h
    split at h
    · cases h
    · exact ⟨marker, hmarker, (Option.some.inj h).symm⟩

/-! ### Unfenced data -/

theorem Data.recogniseJson_eq_some (h : Data.recogniseJson number line rest = some m) :
    ∃ n, Data.balancedLines 0 false (line :: rest) = some n ∧
      (Json.read? (Text.unlines (line :: rest.take (n - 1)))).isSome = true ∧
      m = ⟨.code "json".toList (Text.unlines (line :: rest.take (n - 1))) true, n - 1,
        [.logged (.detected .json number n)]⟩ := by
  unfold Data.recogniseJson at h
  split at h
  · split at h
    · split at h
      · cases h
      · next n hn =>
        dsimp only at h
        split at h
        · cases h
        · next hread => exact ⟨n, hn, by rw [hread]; rfl, (Option.some.inj h).symm⟩
    · cases h
  · cases h

/-- A candidate for YAML is a mapping or a sequence, or one that the reader cannot interpret. -/
theorem Data.recogniseYaml_eq_some [Yaml.Reader]
    (h : Data.recogniseYaml number line rest = some m) :
    let more := rest.takeWhile fun l => !Text.allBlank l
    Data.isYamlStart line = true ∧ more ≠ [] ∧
      ∃ notes, m = ⟨.code "yaml".toList (Text.unlines (line :: more)) true, more.length, notes⟩ ∧
        (Yaml.Reader.load (Text.unlines (line :: more)) = .collection ∧
            notes = [.logged (.detected .yaml number (more.length + 1))] ∨
          ∃ f, Yaml.Reader.load (Text.unlines (line :: more)) = .broken f ∧
            notes = [.failed (.yaml f)]) := by
  unfold Data.recogniseYaml at h
  split at h
  · next hstart =>
    dsimp only at h
    split at h
    · cases h
    · next hmore =>
      refine ⟨hstart, by simpa using hmore, ?_⟩
      split at h
      · next hload => exact ⟨_, (Option.some.inj h).symm, .inl ⟨hload, rfl⟩⟩
      · next f hload => exact ⟨_, (Option.some.inj h).symm, .inr ⟨f, hload, rfl⟩⟩
      · cases h
  · cases h

end Markdown
