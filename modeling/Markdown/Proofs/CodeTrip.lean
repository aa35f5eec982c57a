import Markdown.Proofs.BlockTrip
import Markdown.Proofs.WellFormed

/-!
# Code on its way through HTML

Code keeps its language and its lines on the way through HTML, but for one thing: the normal form of
Markdown has at most one empty line in a row, and code is no exception (`Canonical.answer_trip_code`).
The fence around the code has three backticks, whatever is inside, so the code must have no fence of
its own.
-/

namespace Markdown.Canonical

open Document
open FromHtml
open Text

variable {language content : Text} {ls : List Text}

/-- The lines of code in a fence. -/
def fencedLines (language : Text) (ls : List Text) : List Text :=
  (Canonical.fence ++ language) :: (ls ++ [Canonical.fence])

/-- A character that is no backtick is in the lines of a fence only if it is in the code or its
language. -/
theorem not_mem_of_mem_fencedLines {c : Char} (hc : c ≠ '\x60') (hlanguage : c ∉ language)
    (h : ∀ l ∈ ls, c ∉ l) : ∀ l ∈ fencedLines language ls, c ∉ l := by
  have hfence : c ∉ Canonical.fence := fun hmem => hc (List.eq_of_mem_replicate hmem)
  refine List.forall_mem_cons.mpr ⟨fun hmem => ?_, fun l hl => ?_⟩
  · exact (List.mem_append.mp hmem).elim hfence hlanguage
  · rcases List.mem_append.mp hl with hl | hl
    · exact h l hl
    · rwa [List.mem_singleton.mp hl]

/-- The fences have no blanks around them. -/
theorem trim_unlines_fencedLines (language : Text) (ls : List Text) {s : Text}
    (hs : allBlank s = true) :
    trim (unlines (fencedLines language ls) ++ s) = unlines (fencedLines language ls) := by
  have hopens : opens (fencedLines language ls) = true := rfl
  have hcloses : closes (fencedLines language ls) = true :=
    closes_append ((Canonical.fence ++ language) :: ls) (by rfl : closes [Canonical.fence] = true)
  exact trim_append (head?_unlines hopens) (getLast?_unlines hcloses) hs

/-- The normal form squeezes the lines of code. -/
theorem normalize_fencedLines (hlanguage : ∀ c ∈ language, isWord c = true)
    (hclean : ∀ l ∈ ls, '\n' ∉ l) (hwidth : ∀ l ∈ ls, zeroWidthSpace ∉ l) :
    normalize (closeLines (fencedLines language ls)) =
      unlines (fencedLines language (squeeze ls)) := by
  have hseen : zeroWidthSpace ∉ language := fun hmem => ne_zeroWidthSpace_of_isWord (hlanguage _ hmem) rfl
  have hnewline : '\n' ∉ language := fun hmem => absurd (hlanguage _ hmem) (by decide)
  have hkeep := dropZeroWidth_of_not_mem
    (not_mem_closeLines (by decide) (not_mem_of_mem_fencedLines (by decide) hseen hwidth))
  have hlines := not_mem_of_mem_fencedLines (by decide) hnewline hclean
  have hlast : ∀ k ∈ (fencedLines language ls).getLast?, k ≠ [] := by
    have hfence : (fencedLines language ls).getLast? = some Canonical.fence := by
      simp [fencedLines, List.getLast?_cons]
    rw [hfence]
    rintro k ⟨⟩
    simp [Canonical.fence]
  -- the closing fence is not empty, so no run of empty lines reaches over it
  have hsqueezed : squeeze (ls ++ [Canonical.fence]) = squeeze ls ++ [Canonical.fence] :=
    squeeze_append (by simp [Canonical.fence]) ls []
  rw [FromHtml.normalize, hkeep, closeLines, fencedLines,
    replaceBy_unlines (by simp [Canonical.fence]) hlines hlast, hsqueezed, replaceBy_end]
  exact trim_unlines_fencedLines language (squeeze ls) (by decide)

/-- Code in a fence is split into one block. -/
theorem answer_tokenize_fencedLines (read : Config) (hlanguage : ∀ c ∈ language, isBlank c = false)
    (hclean : ∀ l ∈ ls, '\n' ∉ l ∧ '\r' ∉ l) (hfence : ∀ l ∈ ls, Line.isFence l = false) :
    (tokenize read (unlines (fencedLines language ls)) .empty).1.answer =
      .ok [.code language (unlines ls) false] := by
  have hline : allBlank (Canonical.fence ++ language) = false := rfl
  have hmatch : matchAt read.structuredData 0 (Canonical.fence ++ language) (ls ++ [Canonical.fence]) =
      ⟨.code language (unlines ls) false, ls.length + 1, []⟩ :=
    matchAt_of_first (firstMatch_code 0 [] hlanguage hfence)
  have hbehind : (ls ++ [Canonical.fence]).drop (ls.length + 1) = [] := by simp
  have hblocks : blocks read.structuredData (fencedLines language ls) =
      pure [.code language (unlines ls) false] :=
    blocksFrom_of_matchAt hline hmatch fun k => by rw [hbehind, blocksFrom_nil]
  have hextract : References.extractLines .empty false (fencedLines language ls) =
      (fencedLines language ls, .empty) := extractLines_code .empty language [] hfence
  have hblank : ∀ c, isBlank c = true → c ∉ language := fun c hc hmem => by
    rw [hlanguage c hmem] at hc
    cases hc
  have hnewline := not_mem_of_mem_fencedLines (by decide) (hblank '\n' rfl) fun l hl => (hclean l hl).1
  have hreturn := not_mem_of_mem_fencedLines (by decide) (hblank '\r' rfl) fun l hl => (hclean l hl).2
  have hne : unlines (fencedLines language ls) ≠ [] := by
    intro hempty
    have hhead : (unlines (fencedLines language ls)).head?.any (!isBlank ·) = true := head?_unlines rfl
    rw [hempty] at hhead
    cases hhead
  rw [answer_tokenize_of_extractLines read hne (fun l hl => ⟨hnewline l hl, hreturn l hl⟩) hextract (by simp [fencedLines])
    (List.Subset.refl _), hblocks]
  rfl

/-- What comes back of code. -/
theorem trip_code (shown read : Config) (detected : Bool)
    (hlanguage : ∀ c ∈ language, isWord c = true)
    (hclean : zeroWidthSpace ∉ content ∧ '\r' ∉ content)
    (hfence : ∀ l ∈ Text.lines content, Line.isFence l = false) :
    (trip shown read (.code language content detected)).answer =
      .ok [.code language (unlines (squeeze (Text.lines content))) false] := by
  obtain ⟨code, hcode⟩ := exists_showsCode (e := shown.rendering Highlight.Registry.builtin .empty) rfl
  have hlines : ∀ l ∈ Text.lines content, '\n' ∉ l ∧ '\r' ∉ l ∧ zeroWidthSpace ∉ l := fun l hl =>
    ⟨newline_notMem_of_mem_lines hl, fun hmem => hclean.2 (mem_of_mem_lines hl hmem),
      fun hmem => hclean.1 (mem_of_mem_lines hl hmem)⟩
  have hsub := squeeze_subset (Text.lines content)
  have hhtml : ((shown.rendering Highlight.Registry.builtin .empty).html
      (.code language content detected)).answer =
        .ok (codeNode language detected (code language content)).write :=
    hcode.answer language content detected
  have hnode : blockNode none .document (codeNode language detected (code language content)) =
      pure (closeLines (fencedLines language (Text.lines content))) :=
    blockNode_codeNode hcode .document detected hlanguage hclean.1
  rw [answer_trip read hhtml (isWritten_codeNode hcode language content detected) rfl hnode,
    normalize_fencedLines hlanguage (fun l hl => (hlines l hl).1) fun l hl => (hlines l hl).2.2]
  exact answer_tokenize_fencedLines read (fun c hc => isBlank_of_isWord (hlanguage c hc))
    (fun l hl => ⟨(hlines l (hsub hl)).1, (hlines l (hsub hl)).2.1⟩) fun l hl => hfence l (hsub hl)

/-- Code is squeezed into itself if no two of its lines that stand side by side are empty. -/
theorem unlines_squeeze_eq_self_iff (content : Text) :
    unlines (squeeze (Text.lines content)) = content ↔ ¬ [[], []] <:+: Text.lines content := by
  have hne : squeeze (Text.lines content) ≠ [] := squeeze_ne_nil (lines_ne_nil content)
  have hlines : Text.lines (unlines (squeeze (Text.lines content))) = squeeze (Text.lines content) :=
    Text.lines_unlines hne fun l hl =>
      newline_notMem_of_mem_lines (squeeze_subset (Text.lines content) hl)
  rw [← squeeze_eq_self_iff]
  constructor
  · intro heq
    rw [← hlines, heq]
  · intro heq
    rw [heq, unlines_lines]

/-- Whether blocks are one block of code. -/
def isOnlyCode (language content : Text) (detected : Bool) : List Block → Bool
  | [.code l c d] => l = language && c = content && d = detected
  | _ => false

theorem eq_of_isOnlyCode {detected : Bool} {bs : List Block}
    (h : isOnlyCode language content detected bs = true) : bs = [.code language content detected] := by
  unfold isOnlyCode at h
  split at h
  · simp only [Bool.and_eq_true, decide_eq_true_eq] at h
    obtain ⟨⟨rfl, rfl⟩, rfl⟩ := h
    rfl
  · cases h

/-- **Code survives HTML, but for empty lines in a row.** Code in a language of word characters, or in
none, comes back as one code block of this language, however it was found. Of its lines only empty
ones that stand next to another empty one are lost. Its text must have no zero-width space, no carriage
return and no fence. -/
theorem answer_trip_code (shown read : Config) (detected : Bool)
    (hlanguage : ∀ c ∈ language, isWord c = true)
    (hclean : zeroWidthSpace ∉ content ∧ '\r' ∉ content)
    (hfence : ∀ l ∈ Text.lines content, Line.isFence l = false) :
    (trip shown read (.code language content detected)).answer =
        .ok [.code language (unlines (squeeze (Text.lines content))) false] ∧
      (unlines (squeeze (Text.lines content)) = content ↔ ¬ [[], []] <:+: Text.lines content) :=
  ⟨trip_code shown read detected hlanguage hclean hfence, unlines_squeeze_eq_self_iff content⟩

/-- Code with markup and an empty line. -/
def markupCode : Text :=
  "  <a> & [b]: c\n\n> | d\t".toList

theorem answer_trip_code_markup :
    (∀ c ∈ "sql_2".toList, isWord c = true) ∧
      (zeroWidthSpace ∉ markupCode ∧ '\r' ∉ markupCode) ∧
      (∀ l ∈ Text.lines markupCode, Line.isFence l = false) ∧
      (trip { highlightCode := true } {} (.code "sql_2".toList markupCode true)).answer =
        .ok [.code "sql_2".toList markupCode false] := by
  have hword : ∀ c ∈ "sql_2".toList, isWord c = true :=
    forall_mem_of_all (by decide +kernel)
  have hclean : zeroWidthSpace ∉ markupCode ∧ '\r' ∉ markupCode := by decide +kernel
  have hfence : ∀ l ∈ Text.lines markupCode, Line.isFence l = false := by decide +kernel
  obtain ⟨hback, hself⟩ := answer_trip_code { highlightCode := true } {} true hword hclean hfence
  refine ⟨hword, hclean, hfence, ?_⟩
  rw [hback, hself.mpr (by decide +kernel)]

/-- Code that the tokenizer gives for a source and that the trip changes. -/
theorem code_changed {source code : Text}
    (hfault : Report.firstFault (tokenize {} source .empty).1.notes = none)
    (hsource : isOnlyCode [] code false (tokenize {} source .empty).1.value = true)
    (hlost : ∀ again, isOnlyCode [] code again (trip {} {} (.code [] code false)).value = false) :
    (tokenize {} source .empty).1.answer = .ok [.code [] code false] ∧
      ∀ again, (trip {} {} (.code [] code false)).answer ≠ .ok [.code [] code again] := by
  refine ⟨by rw [Report.answer, hfault, eq_of_isOnlyCode hsource], fun again hback => ?_⟩
  have hkept := hlost again
  rw [Report.value_of_answer hback] at hkept
  simp [isOnlyCode] at hkept

/-- Some code does not come back: the first text has more than one empty line in a row, and the second
a fence between indented lines, which ends the fence around the code. -/
theorem trip_code_changed :
    ((tokenize {} "\x60\x60\x60\na\n\n\nb\n\x60\x60\x60".toList .empty).1.answer =
        .ok [.code [] "a\n\n\nb".toList false] ∧
      ∀ again, (trip {} {} (.code [] "a\n\n\nb".toList false)).answer ≠
        .ok [.code [] "a\n\n\nb".toList again]) ∧
    ((tokenize {} "    a\n    \x60\x60\x60\n    b".toList .empty).1.answer =
        .ok [.code [] "a\n\x60\x60\x60\nb".toList false] ∧
      ∀ again, (trip {} {} (.code [] "a\n\x60\x60\x60\nb".toList false)).answer ≠
        .ok [.code [] "a\n\x60\x60\x60\nb".toList again]) :=
  ⟨code_changed (by decide +kernel) (by decide +kernel) (by decide +kernel),
    code_changed (by decide +kernel) (by decide +kernel) (by decide +kernel)⟩

end Markdown.Canonical
