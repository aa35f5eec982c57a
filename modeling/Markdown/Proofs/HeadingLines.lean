import Markdown.Proofs.Ambient
import Markdown.Proofs.BlockTrip
import Markdown.Proofs.Faults
import Markdown.Proofs.Fences
import Markdown.Proofs.WellFormed

/-!
# Headings of HTML that stand on several lines

The text of a heading element goes behind the hashes as it is, line feeds included. A heading of
Markdown ends with its line, so only the first line of the text is in the heading, and the other lines
become blocks of their own (`Canonical.answer_splitHtml_headingHtml`).
-/

namespace Markdown.Canonical

open Html (Node)
open Document
open FromHtml
open Text

variable {t l : Text} {c : Char} {ls ws : List Text}

/-! ### Phrases -/

/-- A letter, then letters and digits. -/
def isPlainWord : Text → Bool
  | [] => false
  | c :: r => isAsciiLetter c && r.all fun d => isAsciiLetter d || isAsciiDigit d

/-- Spaces, tabs and line feeds. -/
def isSpacing (t : Text) : Bool :=
  !t.isEmpty && t.all fun c => c = ' ' || c = '\t' || c = '\n'

/-- A text of plain words with spacing between each two. -/
inductive IsPhrase : List Text → Text → Prop where
  /-- One word. -/
  | word {w : Text} (hw : isPlainWord w = true) : IsPhrase [w] w
  /-- A word in front of others. -/
  | cons {w s t : Text} {ws : List Text} (hw : isPlainWord w = true) (hs : isSpacing s = true)
      (ht : IsPhrase ws t) : IsPhrase (w :: ws) (w ++ (s ++ t))

/-- A character of a phrase that is no line feed. -/
def isPhraseChar (c : Char) : Bool :=
  isTextChar c || c = '\t'

theorem isTextChar_of_mem_isPlainWord {w : Text} (hw : isPlainWord w = true) (hc : c ∈ w) :
    isTextChar c = true ∧ isBlank c = false := by
  have hclass : isAsciiLetter c = true ∨ isAsciiDigit c = true := by
    cases w with
    | nil => cases hc
    | cons d r =>
      simp only [isPlainWord, Bool.and_eq_true, List.all_eq_true, Bool.or_eq_true] at hw
      rcases List.mem_cons.mp hc with rfl | hc
      · exact .inl hw.1
      · exact hw.2 c hc
  rcases hclass with hletter | hdigit
  · exact ⟨by simp [isTextChar, hletter], isBlank_of_isAsciiLetter hletter⟩
  · exact ⟨by simp [isTextChar, hdigit], isBlank_of_isAsciiDigit hdigit⟩

theorem exists_cons_of_isPlainWord {w : Text} (hw : isPlainWord w = true) :
    ∃ c r, w = c :: r ∧ isAsciiLetter c = true := by
  cases w with
  | nil => cases hw
  | cons c r =>
    rw [isPlainWord, Bool.and_eq_true] at hw
    exact ⟨c, r, rfl, hw.1⟩

theorem IsPhrase.isPhraseChar_of_mem (h : IsPhrase ws t) (hc : c ∈ t) :
    c = '\n' ∨ isPhraseChar c = true := by
  have hword : ∀ {w : Text}, isPlainWord w = true → c ∈ w → isPhraseChar c = true :=
    fun hw hc => by simp [isPhraseChar, isTextChar_of_mem_isPlainWord hw hc]
  induction h with
  | word hw => exact .inr (hword hw hc)
  | cons hw hs ht ih =>
    rcases List.mem_append.mp hc with hc | hc
    · exact .inr (hword hw hc)
    · rcases List.mem_append.mp hc with hc | hc
      · simp only [isSpacing, Bool.and_eq_true, List.all_eq_true, Bool.or_eq_true,
          decide_eq_true_eq] at hs
        rcases hs.2 c hc with (rfl | rfl) | rfl
        · exact .inr rfl
        · exact .inr rfl
        · exact .inl rfl
      · exact ih hc

/-- A phrase begins with a letter. -/
theorem IsPhrase.exists_cons (h : IsPhrase ws t) : ∃ c r, t = c :: r ∧ isAsciiLetter c = true := by
  cases h with
  | word hw => exact exists_cons_of_isPlainWord hw
  | cons hw hs ht =>
    obtain ⟨c, r, rfl, hc⟩ := exists_cons_of_isPlainWord hw
    exact ⟨c, _, rfl, hc⟩

/-- A phrase ends with a character of a word. -/
theorem IsPhrase.visible_getLast (h : IsPhrase ws t) : t.getLast?.any (!isBlank ·) = true := by
  induction h with
  | @word w hw =>
    obtain ⟨c, r, rfl, -⟩ := exists_cons_of_isPlainWord hw
    obtain ⟨z, hz⟩ : ∃ z, (c :: r).getLast? = some z := ⟨_, List.getLast?_cons⟩
    rw [hz, Option.any_some, (isTextChar_of_mem_isPlainWord hw (List.mem_of_getLast? hz)).2]
    rfl
  | @cons w s t ws hw hs ht ih =>
    obtain ⟨c, r, rfl, -⟩ := ht.exists_cons
    obtain ⟨z, hz⟩ : ∃ z, (c :: r).getLast? = some z := ⟨_, List.getLast?_cons⟩
    rw [List.getLast?_append, List.getLast?_append, hz]
    rwa [hz] at ih

theorem IsPhrase.trim_eq_self (h : IsPhrase ws t) : trim t = t := by
  have hlast := h.visible_getLast
  obtain ⟨c, r, rfl, hc⟩ := h.exists_cons
  have hhead : (c :: r).head?.any (!isBlank ·) = true := by simp [isBlank_of_isAsciiLetter hc]
  simpa using trim_append (s := []) hhead hlast rfl

/-! ### Lines of a phrase -/

/-- The lines of a text that ends with a visible character end with it. -/
theorem closes_lines (h : t.getLast?.any (!isBlank ·) = true) : closes (Text.lines t) = true := by
  obtain ⟨l, hlast⟩ : ∃ l, (Text.lines t).getLast? = some l :=
    ⟨_, List.getLast?_eq_some_getLast (lines_ne_nil t)⟩
  obtain ⟨init, hlines⟩ := List.getLast?_eq_some_iff.mp hlast
  have ht : t = unlines (init ++ [l]) := by rw [← hlines, unlines_lines]
  have hl : l.getLast?.any (!isBlank ·) = true := by
    by_cases hinit : init = []
    · rwa [ht, hinit, List.nil_append, unlines, List.intercalate_singleton] at h
    · rw [ht, unlines_append hinit (by simp), unlines, unlines, List.intercalate_singleton,
        List.getLast?_append, List.getLast?_cons] at h
      by_cases hempty : l = []
      · subst hempty
        exact absurd h (by simp [isBlank])
      · obtain ⟨z, hz⟩ : ∃ z, l.getLast? = some z := ⟨_, List.getLast?_eq_some_getLast hempty⟩
        simpa [hz] using h
  rwa [closes, hlast]

theorem closes_of_cons (hls : ls ≠ []) (h : closes (l :: ls) = true) : closes ls = true := by
  obtain ⟨k, ls, rfl⟩ := List.exists_cons_of_ne_nil hls
  simpa [closes, List.getLast?_cons] using h

/-- Lines that end with a visible character are not all blank. -/
theorem not_forall_allBlank_of_closes (h : closes ls = true) : ¬ ∀ l ∈ ls, allBlank l = true := by
  intro hblank
  cases hlast : ls.getLast? with
  | none => simp [closes, hlast] at h
  | some l =>
    cases hz : l.getLast? with
    | none => simp [closes, hlast, hz] at h
    | some z =>
      have hvisible : isBlank z = false := by simpa [closes, hlast, hz] using h
      have hall := List.all_eq_true.mp (hblank l (List.mem_of_getLast? hlast)) z
        (List.mem_of_getLast? hz)
      rw [hvisible] at hall
      cases hall

/-- Squeezing leaves the last line. -/
theorem closes_squeeze (h : closes ls = true) : closes (squeeze ls) = true := by
  cases hlast : ls.getLast? with
  | none =>
    rw [closes, hlast] at h
    cases h
  | some l =>
    obtain ⟨init, rfl⟩ := List.getLast?_eq_some_iff.mp hlast
    rw [closes, hlast] at h
    have hl : l ≠ [] := by
      rintro rfl
      cases h
    rw [squeeze_append hl]
    exact closes_append _ h

/-- The lines of a phrase: the first begins with the first letter, and all are made of the characters
of a phrase. -/
theorem IsPhrase.exists_lines (h : IsPhrase ws t) :
    ∃ c r ls, Text.lines t = (c :: r) :: ls ∧ isAsciiLetter c = true ∧
      ∀ l ∈ Text.lines t, ∀ d ∈ l, isPhraseChar d = true := by
  have hchars : ∀ l ∈ Text.lines t, ∀ d ∈ l, isPhraseChar d = true := fun l hl d hd =>
    (h.isPhraseChar_of_mem (mem_of_mem_lines hl hd)).resolve_left
      (ne_of_mem_of_not_mem hd (newline_notMem_of_mem_lines hl))
  obtain ⟨c, r, rfl, hc⟩ := h.exists_cons
  obtain ⟨l, ls, hlines⟩ := exists_cons_lines r
  have hnewline : '\n' ∉ [c] := fun hmem => ne_of_class hc rfl (List.mem_singleton.mp hmem).symm
  refine ⟨c, l, ls, ?_, hc, hchars⟩
  rw [← List.singleton_append, lines_append_of_not_mem hnewline, hlines]
  rfl

/-! ### Blocks of such lines -/

theorem mem_of_mem_trimStart (hc : c ∈ trimStart l) : c ∈ l :=
  (List.dropWhile_sublist isBlank).mem hc

section

variable (h : ∀ d ∈ l, isPhraseChar d = true)
include h

/-- What a line without blanks in front begins with. -/
theorem isTextChar_of_trimStart {r : Text} (htrim : trimStart l = c :: r) :
    isTextChar c = true ∧ isBlank c = false := by
  have hblank : isBlank c = false := not_of_dropWhile_eq_cons htrim
  have hclass := h c (mem_of_mem_trimStart (by rw [htrim]; exact List.mem_cons_self))
  rw [isPhraseChar, Bool.or_eq_true, decide_eq_true_eq] at hclass
  refine ⟨hclass.resolve_right ?_, hblank⟩
  rintro rfl
  cases hblank

theorem not_mem_of_isPhraseChar (hc : isPhraseChar c = false) : c ∉ l := fun hmem =>
  ne_of_class (h c hmem) hc rfl

theorem isKept_of_isPhraseChar (hvisible : allBlank l = false) : isKept l = true := by
  cases htrim : trimStart l with
  | nil =>
    rw [trimStart_eq_nil_iff.mp htrim] at hvisible
    cases hvisible
  | cons c r =>
    have hc := (isTextChar_of_trimStart h htrim).1
    simp [isKept, htrim, ne_of_class (d := '\x60') hc rfl, ne_of_class (d := '[') hc rfl]

/-- Such a line, blank or not, opens no fence and defines nothing. -/
theorem stays_of_isPhraseChar :
    Line.isFence l = false ∧ References.definitionLine? l = none := by
  by_cases hblank : allBlank l = true
  · have htrim := trimStart_eq_nil_iff.mpr hblank
    refine ⟨isFence_of_allBlank hblank, ?_⟩
    simp [References.definitionLine?, References.footnoteLine?, References.linkLine?, htrim]
  · have hkept := isKept_of_isPhraseChar h (Bool.eq_false_iff.mpr hblank)
    exact ⟨isFence_of_isKept hkept, definitionLine?_of_isKept hkept⟩

theorem hashes?_of_isPhraseChar : Line.hashes? l = none := by
  cases l with
  | nil => rfl
  | cons c r => exact hashes?_cons r (ne_of_class (h c List.mem_cons_self) rfl)

theorem underlineLevel?_of_isPhraseChar : Heading.underlineLevel? l = none := by
  cases l with
  | nil => rfl
  | cons c r =>
    have hequals : c ≠ '=' := ne_of_class (h c List.mem_cons_self) rfl
    have hdash : c ≠ '-' := ne_of_class (h c List.mem_cons_self) rfl
    simp [Heading.underlineLevel?, hequals, hdash]

theorem meaning?_of_isPhraseChar : Glossary.meaning? l = none := by
  unfold Glossary.meaning?
  split
  · exact absurd (h ':' List.mem_cons_self) (by decide)
  · rfl

theorem marker?_of_isPhraseChar : Line.marker? l = none := by
  have hne : ∀ c r, c :: r <:+ trimStart l → isPhraseChar c = true := fun c r hsuffix =>
    h c (mem_of_mem_trimStart (hsuffix.subset List.mem_cons_self))
  unfold Line.marker?
  dsimp only
  split
  · split
    · next c r htrim =>
      have hc := hne c r ⟨[], by rw [htrim]; rfl⟩
      simp [ne_of_class (d := '-') hc rfl, ne_of_class (d := '*') hc rfl,
        ne_of_class (d := '+') hc rfl]
    · rfl
  · split
    · next c r hdrop =>
      have hc := hne c r (hdrop ▸ List.drop_suffix _ _)
      simp [ne_of_class (d := '.') hc rfl, ne_of_class (d := ')') hc rfl]
    · rfl

theorem isRule_of_isPhraseChar : Line.isRule l = false := by
  cases htrim : trimStart l with
  | nil => rw [Line.isRule, trim, htrim]; rfl
  | cons c r =>
    obtain ⟨hc, hblank⟩ := isTextChar_of_trimStart h htrim
    obtain ⟨s, hs⟩ := trim_cons hblank r
    have htext : trim l = c :: s := by
      rw [trim, trimStart_cons hblank] at hs
      rw [trim, htrim, hs]
    simp [Line.isRule, htext, ne_of_class (d := '-') hc rfl, ne_of_class (d := '*') hc rfl,
      ne_of_class (d := '_') hc rfl]

theorem isYamlStart_of_isPhraseChar : Data.isYamlStart l = false := by
  have hcolon : ∀ r tail, r <:+ trimStart l →
      (r.dropWhile fun d => isWord d || isBlank d) ≠ ':' :: tail := by
    intro r tail hsuffix heq
    have hmem : ':' ∈ r := (List.dropWhile_sublist _).mem (by rw [heq]; exact List.mem_cons_self)
    exact not_mem_of_isPhraseChar h (by decide) (mem_of_mem_trimStart (hsuffix.subset hmem))
  unfold Data.isYamlStart
  split
  · next r => exact absurd (h '-' List.mem_cons_self) (by decide)
  · dsimp only
    split
    · next c r htrim =>
      split
      · next tail heq => exact absurd heq (hcolon r tail (htrim ▸ List.suffix_cons c r))
      · exact Bool.and_false _
    · rfl

end

/-- Such a line begins indented code or a paragraph. -/
theorem matchAt_of_isPhraseChar (structured : Bool) (number : Nat) {line : Text} {rest : List Text}
    (hline : ∀ d ∈ line, isPhraseChar d = true) (hrest : ∀ l ∈ rest, ∀ d ∈ l, isPhraseChar d = true) :
    matchAt structured number line rest =
      (Fence.recogniseIndented number line rest).getD (Paragraph.startingAt number line rest) := by
  have hfirst : Shape.firstMatch Shape.beforeQuote number line rest = none := by
    have hunder : Heading.recogniseUnderlined number line rest = none :=
      recogniseUnderlined_eq_none fun next hnext =>
        underlineLevel?_of_isPhraseChar (hrest next (List.mem_of_mem_head? hnext))
    simp [Shape.firstMatch, Shape.beforeQuote, Shape.recogniser, Fence.recognise,
      (stays_of_isPhraseChar hline).1, Heading.recognise, hashes?_of_isPhraseChar hline, hunder,
      Heading.recogniseRule, isRule_of_isPhraseChar hline]
  have hquote : Quote.strip? line = none := by
    unfold Quote.strip?
    split
    · next htrim => exact absurd (isTextChar_of_trimStart hline htrim).1 (by decide)
    · next htrim => exact absurd (isTextChar_of_trimStart hline htrim).1 (by decide)
    · rfl
  have htable : Table.recognise number line rest = none :=
    recognise_table_eq_none number rest (not_mem_of_isPhraseChar hline (by decide))
  have hglossary : Glossary.recognise number line rest = none := by
    rw [Glossary.recognise, if_neg]
    cases rest with
    | nil => simp [Glossary.startsEntry]
    | cons next rest =>
      simp [Glossary.startsEntry, meaning?_of_isPhraseChar (hrest next List.mem_cons_self)]
  have hjson : Data.recogniseJson number line rest = none := by
    unfold Data.recogniseJson
    split
    · next c r htrim =>
      have hc := (isTextChar_of_trimStart hline htrim).1
      simp [ne_of_class (d := '\x7b') hc rfl, ne_of_class (d := '[') hc rfl]
    · rfl
  have hlist : Listing.recognise number line rest = none := by
    rw [Listing.recognise, Listing.recogniseFrom, marker?_of_isPhraseChar hline]
  have hyaml : Data.recogniseYaml number line rest = none := by
    rw [Data.recogniseYaml, isYamlStart_of_isPhraseChar hline]
    rfl
  have hlater : Shape.firstMatch (Shape.afterQuote structured) number line rest =
      Fence.recogniseIndented number line rest := by
    cases hindented : Fence.recogniseIndented number line rest <;> cases structured <;>
      simp [Shape.firstMatch, Shape.afterQuote, Shape.recogniser, htable, hglossary,
        hlist, hindented, hjson, hyaml]
  rw [matchAt_of_later hfirst hquote, hlater]

/-- No such lines are a fault. -/
theorem isClean_blocksFrom_of_isPhraseChar (structured : Bool) (number : Nat)
    (h : ∀ l ∈ ls, ∀ d ∈ l, isPhraseChar d = true) : (blocksFrom structured number ls).IsClean := by
  -- on the number of lines, since a block may take several
  induction hk : ls.length using Nat.strongRecOn generalizing number ls with
  | ind k ih =>
    cases ls with
    | nil =>
      rw [blocksFrom_nil]
      exact Report.isClean_pure _
    | cons line rest =>
      obtain ⟨hline, hrest⟩ := List.forall_mem_cons.mp h
      rw [List.length_cons] at hk
      by_cases hblank : allBlank line = true
      · rw [blocksFrom_blank _ _ _ hblank]
        exact ih rest.length (by omega) (number + 1) hrest rfl
      · rw [blocksFrom_cons _ _ _ (Bool.eq_false_iff.mpr hblank),
          matchAt_of_isPhraseChar structured number hline hrest]
        have hfirst : ((Fence.recogniseIndented number line rest).getD
            (Paragraph.startingAt number line rest)).report.IsClean := by
          cases hindented : Fence.recogniseIndented number line rest with
          | none => exact Paragraph.isClean_continuation (number + 1) rest
          | some m =>
            obtain ⟨code, -, -, rfl⟩ := Fence.recogniseIndented_eq_some hindented
            exact Report.isClean_pure _
        dsimp only
        refine hfirst.bind fun block => ?_
        refine (ih _ ?_ _ (fun l hl => hrest l (List.mem_of_mem_drop hl)) rfl).bind fun _ =>
          Report.isClean_pure _
        rw [List.length_drop]
        omega

/-! ### The heading -/

/-- The line of a heading behind hashes. -/
def hashLine (level : Int) (l : Text) : Text :=
  List.replicate level.toNat '#' ++ ' ' :: l

theorem exists_cons_hashLine {level : Int} (hlow : 1 ≤ level) (l : Text) :
    ∃ r, hashLine level l = '#' :: r := by
  obtain ⟨n, hn⟩ : ∃ n, level.toNat = n + 1 := ⟨level.toNat - 1, by omega⟩
  exact ⟨List.replicate n '#' ++ ' ' :: l, by rw [hashLine, hn]; rfl⟩

theorem not_mem_hashLine (level : Int) (hmark : c ≠ '#' ∧ c ≠ ' ') (h : c ∉ l) :
    c ∉ hashLine level l := by
  rw [hashLine, List.mem_append, List.mem_cons]
  rintro (hmem | heq | hmem)
  · exact hmark.1 (List.eq_of_mem_replicate hmem)
  · exact hmark.2 heq
  · exact h hmem

theorem closes_hashLine (level : Int) (h : closes (l :: ls) = true) :
    closes (hashLine level l :: ls) = true := by
  cases ls with
  | nil =>
    obtain ⟨z, hz⟩ : ∃ z, l.getLast? = some z := by
      cases hz : l.getLast? with
      | none => simp [closes, hz] at h
      | some z => exact ⟨z, rfl⟩
    simpa [closes, hashLine, List.getLast?_append, List.getLast?_cons, hz] using h
  | cons k ls => simpa [closes, List.getLast?_cons] using h

/-- A heading with lines behind it is split into the heading and the blocks of these lines. -/
theorem answer_tokenize_hashLine (read : Config) {level : Int} (hlevel : 1 ≤ level ∧ level ≤ 6)
    {r : Text} (hc : isAsciiLetter c = true)
    (hchars : ∀ l ∈ (c :: r) :: ls, ∀ d ∈ l, isPhraseChar d = true) :
    (tokenize read (unlines (hashLine level (c :: r) :: ls)) .empty).1.answer =
      .ok (.heading level (trim (c :: r)) :: (blocksFrom read.structuredData 1 ls).value) := by
  obtain ⟨hfirst, hrest⟩ := List.forall_mem_cons.mp hchars
  obtain ⟨s, hline⟩ := exists_cons_hashLine hlevel.1 (c :: r)
  have hclean : ∀ l ∈ hashLine level (c :: r) :: ls, '\n' ∉ l ∧ '\r' ∉ l := by
    have hnot : ∀ l ∈ (c :: r) :: ls, '\n' ∉ l ∧ '\r' ∉ l := fun l hl =>
      ⟨not_mem_of_isPhraseChar (hchars l hl) (by decide),
        not_mem_of_isPhraseChar (hchars l hl) (by decide)⟩
    obtain ⟨⟨hfeed, hreturn⟩, htail⟩ := List.forall_mem_cons.mp hnot
    exact List.forall_mem_cons.mpr
      ⟨⟨not_mem_hashLine level (by decide) hfeed, not_mem_hashLine level (by decide) hreturn⟩, htail⟩
  have hextract : References.extractLines .empty false (hashLine level (c :: r) :: ls) =
      (hashLine level (c :: r) :: ls, .empty) := by
    have hkept : isKept (hashLine level (c :: r)) = true := by
      rw [hline]
      exact isKept_cons s (by decide) (by decide)
    have hstay : ∀ l ∈ hashLine level (c :: r) :: ls,
        Line.isFence l = false ∧ References.definitionLine? l = none :=
      List.forall_mem_cons.mpr ⟨⟨isFence_of_isKept hkept, definitionLine?_of_isKept hkept⟩,
        fun l hl => stays_of_isPhraseChar (hrest l hl)⟩
    simpa [References.extractLines] using extractLines_append .empty [] hstay
  have hne : unlines (hashLine level (c :: r) :: ls) ≠ [] := by
    intro hempty
    have hopens : opens (hashLine level (c :: r) :: ls) = true := by rw [hline]; rfl
    have hhead := head?_unlines hopens
    rw [hempty] at hhead
    cases hhead
  have hmatch : matchAt read.structuredData 0 (hashLine level (c :: r)) ls =
      ⟨.heading level (trim (c :: r)), 0, []⟩ :=
    matchAt_of_first (firstMatch_hashes 0 ls hlevel.1 hlevel.2 (isBlank_of_isAsciiLetter hc)
      (not_mem_of_isPhraseChar hfirst (by decide)))
  have hblank : allBlank (hashLine level (c :: r)) = false := by rw [hline]; rfl
  rw [answer_tokenize_of_extractLines read hne hclean hextract (by simp) (List.Subset.refl _), blocks,
    blocksFrom_cons _ _ _ hblank, hmatch]
  have hmore := (isClean_blocksFrom_of_isPhraseChar read.structuredData 1 hrest).answer_eq
  have hbind := Report.answer_bind_of_ok hmore fun more =>
    pure (Block.heading level (trim (c :: r)) :: more)
  simp only [Match.report]
  exact hbind

/-- Behind the hashes the lines of a phrase are squeezed. -/
theorem normalize_hashLine {level : Int} (hlow : 1 ≤ level) (h : IsPhrase ws t)
    (hlines : Text.lines t = l :: ls) :
    normalize (hashLine level t ++ ['\n', '\n']) = unlines (hashLine level l :: squeeze ls) := by
  have hcloses := closes_lines h.visible_getLast
  obtain ⟨s, hline⟩ := exists_cons_hashLine hlow l
  have htext : hashLine level t = unlines (hashLine level l :: ls) := by
    rw [← unlines_lines t, hlines, hashLine, hashLine]
    by_cases hls : ls = []
    · subst hls
      rw [unlines, unlines, List.intercalate_singleton, List.intercalate_singleton]
    · rw [unlines_cons l hls, unlines_cons _ hls, List.append_assoc, List.cons_append]
  have hwidth : zeroWidthSpace ∉ hashLine level t ++ ['\n', '\n'] := by
    have hphrase : zeroWidthSpace ∉ t := fun hmem =>
      (h.isPhraseChar_of_mem hmem).elim (by decide) (by decide)
    exact List.not_mem_append (not_mem_hashLine level (by decide) hphrase) (by decide)
  have hclean : ∀ k ∈ hashLine level l :: ls, '\n' ∉ k := by
    have hnot : ∀ k ∈ l :: ls, '\n' ∉ k := fun k hk => newline_notMem_of_mem_lines (hlines ▸ hk)
    obtain ⟨hfirst, htail⟩ := List.forall_mem_cons.mp hnot
    exact List.forall_mem_cons.mpr ⟨not_mem_hashLine level (by decide) hfirst, htail⟩
  have hends : closes (hashLine level l :: ls) = true := closes_hashLine level (hlines ▸ hcloses)
  have hlast : ∀ k ∈ (hashLine level l :: ls).getLast?, k ≠ [] := by
    rintro k hk rfl
    rw [closes, Option.mem_def.mp hk] at hends
    cases hends
  have hsqueeze : squeeze (hashLine level l :: ls) = hashLine level l :: squeeze ls :=
    squeeze_cons (by rw [hline]; simp) ls
  rw [FromHtml.normalize, dropZeroWidth_of_not_mem hwidth, htext,
    replaceBy_unlines (by rw [hline]; simp) hclean hlast, replaceBy_end]
  refine trim_append (head?_unlines (by rw [hline]; rfl)) (getLast?_unlines ?_) (by decide)
  rw [← hsqueeze]
  exact closes_squeeze hends

/-! ### From the element to the heading -/

/-- The HTML of a heading. -/
def headingHtml (level : Int) (t : Text) : Text :=
  "<h".toList ++ (ofInt level ++ '>' :: (t ++ ("</h".toList ++ (ofInt level ++ ['>']))))

/-- HTML converted to Markdown and split into blocks. -/
def splitHtml (read : Config) (html : Text) : Report (List Block) := do
  let text ← ofHtml none html
  (tokenize read text .empty).1

/-- A heading element becomes its text behind hashes. -/
theorem ofHtml_headingHtml {level : Int} (hlevel : 1 ≤ level ∧ level ≤ 6) (h : IsPhrase ws t) :
    ofHtml none (headingHtml level t) = pure (normalize (hashLine level t ++ ['\n', '\n'])) := by
  have htag := isContainer_heading hlevel
  have hescape : Html.escape t = t := flatMap_eq_self fun c hc => by
    rcases h.isPhraseChar_of_mem hc with rfl | hc
    · rfl
    · rw [isPhraseChar, Bool.or_eq_true, decide_eq_true_eq] at hc
      rcases hc with hc | rfl
      · exact escapeChar_of_isTextChar hc
      · rfl
  have hwrite : (Node.element ⟨'h' :: ofInt level, []⟩ [plain t]).write = headingHtml level t := by
    have hempty := isEmptyElement_of_isContainer htag
    rw [write_element hempty, Html.Tag.startText, hempty, Html.Tag.endText, Node.writes, Node.writes,
      plain, Node.write, hescape, headingHtml]
    simp [Html.attributesText]
  have hspace : t.all Html.Growth.isSpace = false := by
    obtain ⟨c, r, rfl, hc⟩ := h.exists_cons
    rw [List.all_cons, isSpace_of_isBlank (isBlank_of_isAsciiLetter hc), Bool.false_and]
  have hnode := blockNode_hashes (t := t) .document hlevel (by
    rw [h.trim_eq_self]
    obtain ⟨c, r, rfl, -⟩ := h.exists_cons
    simp)
  rw [h.trim_eq_self] at hnode
  rw [← hwrite]
  exact ofHtml_write (isWritten_element htag (areWritten_text hspace rfl rfl)) rfl hnode

/-- **A heading ends with its first line.** The HTML of a heading with a phrase becomes a heading of
its level with the first line of the phrase. Nothing follows exactly if the phrase has one line; then
the content is the whole phrase. -/
theorem answer_splitHtml_headingHtml (read : Config) {level : Int} (hlevel : 1 ≤ level ∧ level ≤ 6)
    (h : IsPhrase ws t) :
    (∃ bs, (splitHtml read (headingHtml level t)).answer =
        .ok (.heading level (trim ((Text.lines t).headD [])) :: bs) ∧ (bs = [] ↔ '\n' ∉ t)) ∧
      ((splitHtml read (headingHtml level t)).answer = .ok [.heading level t] ↔ '\n' ∉ t) := by
  obtain ⟨c, r, ls, hlines, hc, hchars⟩ := h.exists_lines
  have hcloses := closes_lines h.visible_getLast
  rw [hlines] at hchars hcloses
  have hsqueezed : ∀ l ∈ (c :: r) :: squeeze ls, ∀ d ∈ l, isPhraseChar d = true := fun l hl =>
    hchars l (List.cons_subset_cons _ (squeeze_subset ls) hl)
  have hanswer : (splitHtml read (headingHtml level t)).answer =
      .ok (.heading level (trim (c :: r)) ::
        (blocksFrom read.structuredData 1 (squeeze ls)).value) := by
    rw [splitHtml, ofHtml_headingHtml hlevel h, pure_bind, normalize_hashLine hlevel.1 h hlines]
    exact answer_tokenize_hashLine read hlevel hc hsqueezed
  have hone : '\n' ∉ t ↔ ls = [] := by
    have hcount := length_lines t
    rw [hlines, List.length_cons] at hcount
    rw [← List.count_eq_zero, ← List.length_eq_zero_iff]
    omega
  have hnone : (blocksFrom read.structuredData 1 (squeeze ls)).value = [] ↔ ls = [] := by
    constructor
    · intro hnil
      by_contra hls
      refine absurd (allBlank_of_blocksFrom_eq_nil hnil) (not_forall_allBlank_of_closes ?_)
      exact closes_squeeze (closes_of_cons hls hcloses)
    · rintro rfl
      simp [squeeze]
  refine ⟨⟨_, by rw [hanswer, hlines]; rfl, hnone.trans hone.symm⟩, ?_⟩
  rw [hanswer]
  constructor
  · intro heq
    injection heq with heq
    injection heq with hblock hmore
    exact hone.mpr (hnone.mp hmore)
  · intro hline
    have htrim : trim (c :: r) = t := by
      rw [← h.trim_eq_self, ← unlines_lines t, hlines, hone.mp hline, unlines,
        List.intercalate_singleton]
    rw [hnone.mpr (hone.mp hline), htrim]

/-- A phrase on one line, with two spaces and a tab in it. -/
def releasePhrase : Text :=
  "Release  notes\tv2".toList

theorem isPhrase_releasePhrase :
    IsPhrase ["Release".toList, "notes".toList, "v2".toList] releasePhrase :=
  .cons (w := "Release".toList) (s := "  ".toList) (by decide) (by decide)
    (.cons (w := "notes".toList) (s := "\t".toList) (by decide) (by decide) (.word (by decide)))

theorem answer_splitHtml_headingHtml_release :
    (1 ≤ (3 : Int) ∧ (3 : Int) ≤ 6) ∧
      IsPhrase ["Release".toList, "notes".toList, "v2".toList] releasePhrase ∧
      (splitHtml {} (headingHtml 3 releasePhrase)).answer = .ok [.heading 3 releasePhrase] := by
  have hlevel : 1 ≤ (3 : Int) ∧ (3 : Int) ≤ 6 := by decide
  obtain ⟨-, hone⟩ := answer_splitHtml_headingHtml {} hlevel isPhrase_releasePhrase
  exact ⟨hlevel, isPhrase_releasePhrase, hone.mpr (by decide)⟩

/-- A heading on two lines becomes two blocks. -/
theorem heading_split :
    IsPhrase ["a".toList, "b".toList] "a\nb".toList ∧
      headingHtml 1 "a\nb".toList = "<h1>a\nb</h1>".toList ∧
      ¬ ∃ content,
        (splitHtml {} (headingHtml 1 "a\nb".toList)).answer = .ok [.heading 1 content] := by
  refine ⟨.cons (w := "a".toList) (s := "\n".toList) (by decide) (by decide) (.word (by decide)),
    by decide, ?_⟩
  rintro ⟨content, hanswer⟩
  have htwo : (splitHtml {} (headingHtml 1 "a\nb".toList)).value.length = 2 := by decide +kernel
  rw [Report.value_of_answer hanswer] at htwo
  cases htwo

end Markdown.Canonical
