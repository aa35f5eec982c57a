import Markdown.Proofs.Characters
import Markdown.Proofs.LowerCase
import Markdown.Proofs.Scanners
import Mathlib.Data.List.Infix

/-!
# Embedded style sheets and scripts

The body of a style or script element is left to the scanner of its language. The scanner for HTML finds
the end of the body first: it is the place of the first end tag of that name, in any case, and in front
of it no such tag can start that ends behind it (`Html.bodyLength_append`). Then it counts how many
characters of the body are left. As long as the inner scanner stays inside the body, the count tells the
outer one when to go on by itself (`Html.segment_embedded`). So the spans of the body are those of the
body alone, and what stands behind the end tag is scanned as if nothing stood in front of it
(`Html.spans_embedded`).
-/

namespace Markdown

namespace Text

variable {word t r : Text} {c : Char}

/-! ### Words in any case -/

theorem isWordOf_cons (letter c : Char) (word t : Text) :
    isWordOf (letter :: word) (c :: t) = (isCaseOf letter c && isWordOf word t) := by
  simp only [isWordOf, List.length_cons, Nat.add_right_cancel_iff, List.zip_cons_cons, List.all_cons]
  exact Bool.and_left_comm _ _ _

theorem exists_isCaseOf_of_mem (h : isWordOf word t = true) (hc : c ∈ t) :
    ∃ letter ∈ word, isCaseOf letter c = true := by
  induction word generalizing t with
  | nil =>
    cases t with
    | nil => cases hc
    | cons d t => cases h
  | cons letter word ih =>
    cases t with
    | nil => cases hc
    | cons d t =>
      rw [isWordOf_cons, Bool.and_eq_true] at h
      rcases List.mem_cons.mp hc with rfl | hc
      · exact ⟨letter, List.mem_cons_self, h.1⟩
      · obtain ⟨l, hl, hcase⟩ := ih h.2 hc
        exact ⟨l, List.mem_cons_of_mem _ hl, hcase⟩

theorem afterWord?_eq_some_iff :
    afterWord? word t = some r ↔ ∃ part, t = part ++ r ∧ isWordOf word part = true := by
  induction word generalizing t with
  | nil =>
    constructor
    · exact fun h => ⟨[], by simpa [afterWord?] using h, rfl⟩
    · rintro ⟨part, rfl, h⟩
      cases part with
      | nil => rfl
      | cons c part => cases h
  | cons letter word ih =>
    constructor
    · intro h
      cases t with
      | nil => cases h
      | cons c t =>
        rw [afterWord?] at h
        split at h
        · next hc =>
          obtain ⟨part, rfl, hpart⟩ := ih.mp h
          exact ⟨c :: part, rfl, by rw [isWordOf_cons, hc, hpart]; rfl⟩
        · cases h
    · rintro ⟨part, rfl, h⟩
      cases part with
      | nil => cases h
      | cons c part =>
        rw [isWordOf_cons, Bool.and_eq_true] at h
        rw [List.cons_append, afterWord?, if_pos h.1]
        exact ih.mpr ⟨part, rfl, h.2⟩

/-- Some part of a text is a word in any case. -/
def HasWord (word t : Text) : Prop :=
  ∃ part, part <:+: t ∧ isWordOf word part = true

/-- It is found by looking at each place. -/
theorem hasWord_iff : HasWord word t ↔ ∃ s ∈ t.tails, (afterWord? word s).isSome = true := by
  simp only [HasWord, List.mem_tails, Option.isSome_iff_exists, afterWord?_eq_some_iff]
  constructor
  · rintro ⟨part, ⟨before, behind, rfl⟩, hpart⟩
    exact ⟨part ++ behind, ⟨before, by rw [List.append_assoc]⟩, behind, part, rfl, hpart⟩
  · rintro ⟨s, ⟨before, rfl⟩, behind, part, rfl, hpart⟩
    exact ⟨part, ⟨before, behind, by rw [List.append_assoc]⟩, hpart⟩

instance (word t : Text) : Decidable (HasWord word t) :=
  decidable_of_iff _ hasWord_iff.symm

/-- A text is its own word in lower case. -/
theorem isWordOf_map_lowerAscii (t : Text) : isWordOf (t.map lowerAscii) t = true := by
  induction t with
  | nil => rfl
  | cons c t ih =>
    rw [List.map_cons, isWordOf_cons, ih, Bool.and_true]
    simp [isCaseOf]

/-- Only letters become letters. -/
theorem isAsciiLetter_of_lowerAscii (h : isAsciiLetter (lowerAscii c) = true) :
    isAsciiLetter c = true := by
  unfold lowerAscii at h
  split at h
  · next hcapital => rw [isAsciiLetter, hcapital, Bool.or_true]
  · exact h

end Text

namespace Highlight.Html

open Text

variable {name body r : Text}

/-! ### The end of a body -/

/-- The body ends at the first end tag. A tag that starts inside the body would end inside it too, since
no letter of the name is an angle bracket. -/
theorem bodyLength_append (hname : ∀ l ∈ name, isCaseOf l '<' = false)
    (hbody : ¬HasWord ('<' :: '/' :: name) body) (hend : (afterWord? name r).isSome = true) :
    bodyLength name (body ++ '<' :: '/' :: r) = body.length := by
  induction body with
  | nil => simp [bodyLength, hend]
  | cons c body ih =>
    have hinside : ¬HasWord ('<' :: '/' :: name) body := fun ⟨part, hpart, hword⟩ =>
      hbody ⟨part, hpart.trans (List.suffix_cons c body).isInfix, hword⟩
    have hopen : ¬(c = '<' && (body ++ '<' :: '/' :: r).head? = some '/' &&
        (afterWord? name ((body ++ '<' :: '/' :: r).drop 1)).isSome) = true := by
      simp only [Bool.and_eq_true, decide_eq_true_eq, Option.isSome_iff_exists, afterWord?_eq_some_iff]
      rintro ⟨⟨rfl, hslash⟩, behind, part, htext, hpart⟩
      cases body with
      | nil => exact absurd hslash (by simp)
      | cons d body =>
        obtain rfl : d = '/' := by simpa using hslash
        have hbracket : '<' ∉ part := fun hmem => by
          obtain ⟨l, hl, hcase⟩ := exists_isCaseOf_of_mem hpart hmem
          rw [hname l hl] at hcase
          cases hcase
        have htext : body ++ '<' :: '/' :: r = part ++ behind := htext
        rcases List.append_eq_append_iff.mp htext with ⟨more, rfl, hmore⟩ | ⟨more, rfl, -⟩
        · cases more with
          | nil =>
            refine hbody ⟨'<' :: '/' :: body, List.infix_refl _, ?_⟩
            rw [isWordOf_cons, isWordOf_cons, ← List.append_nil body, hpart]
            rfl
          | cons e more =>
            obtain rfl : '<' = e := (List.cons.inj hmore).1
            exact hbracket (List.mem_append_right _ List.mem_cons_self)
        · refine hbody ⟨'<' :: '/' :: part, ⟨[], more, rfl⟩, ?_⟩
          rw [isWordOf_cons, isWordOf_cons, hpart]
          rfl
    rw [List.cons_append, bodyLength, if_neg hopen, ih hinside, List.length_cons]

/-! ### The scan of a body -/

section

variable {σ : Type} {inner : σ → Char → Text → Cut σ (Option SpanClass)} {mode : Nat → σ → Mode}

/-- **A body is scanned as if it stood alone.** While characters of the body are left, the steps are
those of the inner scanner, which stays inside the body. Then the outer scanner goes on. -/
theorem segment_embedded (hmode : ∀ left s c r, step (mode left s) c r = embed left mode (inner s c) r)
    (hinner : ∀ s c r, (inner s c r).extra ≤ r.length) (s : σ) (body rest : Text) :
    segment step (if body.length = 0 then .content else mode body.length s) (body ++ rest) =
      segment inner s body ++ segment step .content rest := by
  induction hn : body.length using Nat.strongRecOn generalizing s body with
  | ind n ih =>
    cases body with
    | nil =>
      subst hn
      rw [segment_nil]
      rfl
    | cons c r =>
      subst hn
      have hseen : (r ++ rest).take (r.length + 1 - 1) = r := List.take_left' rfl
      have hextra := hinner s c r
      have hcut : step (mode (r.length + 1) s) c (r ++ rest) =
          cut (inner s c r).extra (inner s c r).label
            (if (r.drop (inner s c r).extra).length = 0 then .content
              else mode (r.drop (inner s c r).extra).length (inner s c r).state) := by
        rw [hmode, embed, hseen, Nat.add_sub_cancel, Nat.min_eq_left hextra, List.length_drop]
      have hshorter : (r.drop (inner s c r).extra).length < r.length + 1 := by
        rw [List.length_drop]
        omega
      rw [List.length_cons, if_neg (Nat.succ_ne_zero _), List.cons_append, segment_cons, segment_cons, hcut]
      simp only [cut]
      rw [List.take_append_of_le_length hextra, List.drop_append_of_le_length hextra, ih _ hshorter _ _ rfl,
        List.cons_append]

end

/-! ### Tags without attributes -/

/-- The name of a start tag, or of an end tag with its slash. -/
inductive IsTagName : Text → Prop where
  /-- Letters. -/
  | start {letters : Text} (hne : letters ≠ []) (h : ∀ c ∈ letters, isAsciiLetter c = true) :
    IsTagName letters
  /-- A slash and letters. -/
  | ending {letters : Text} (hne : letters ≠ []) (h : ∀ c ∈ letters, isAsciiLetter c = true) :
    IsTagName ('/' :: letters)

theorem runLength_letters {letters : Text} (h : ∀ c ∈ letters, isAsciiLetter c = true) (r : Text) :
    runLength isNameChar (letters ++ '>' :: r) = letters.length := by
  have hchars : ∀ c ∈ letters, isNameChar c = true := fun c hc => by
    rw [isNameChar, isWord_of_isAsciiLetter (h c hc)]
    rfl
  rw [runLength, List.takeWhile_append_of_pos hchars]
  simp [show isNameChar '>' = false from rfl]

/-- A name is read up to the closing bracket. -/
theorem IsTagName.tagLength (h : IsTagName name) (r : Text) :
    tagLength ('<' :: (name ++ '>' :: r)) = name.length + 1 := by
  cases h with
  | start hne h =>
    obtain ⟨c, letters, rfl⟩ := List.exists_cons_of_ne_nil hne
    obtain ⟨hc, hletters⟩ := List.forall_mem_cons.mp h
    have hslash : c ≠ '/' := ne_of_class hc rfl
    simp [Html.tagLength, hslash, hc, runLength_letters hletters]
    omega
  | ending hne h =>
    obtain ⟨c, letters, rfl⟩ := List.exists_cons_of_ne_nil hne
    obtain ⟨hc, hletters⟩ := List.forall_mem_cons.mp h
    simp [Html.tagLength, hc, runLength_letters hletters]
    omega

theorem IsTagName.exists_cons (h : IsTagName name) :
    ∃ c r, name = c :: r ∧ (c = '/' ∨ isAsciiLetter c = true) := by
  cases h with
  | start hne h =>
    obtain ⟨c, letters, rfl⟩ := List.exists_cons_of_ne_nil hne
    exact ⟨c, letters, rfl, .inr (h c List.mem_cons_self)⟩
  | ending => exact ⟨'/', _, rfl, .inl rfl⟩

theorem IsTagName.isAscii (h : IsTagName name) : ∀ c ∈ name, c.toNat < 0x80 := by
  have hletter : ∀ {c}, isAsciiLetter c = true → c.toNat < 0x80 := fun hc => by
    simp [isAsciiLetter, Char.le_def, UInt32.le_iff_toNat_le] at hc
    omega
  cases h with
  | start _ h => exact fun c hc => hletter (h c hc)
  | ending _ h => exact List.forall_mem_cons.mpr ⟨by decide, fun c hc => hletter (h c hc)⟩

/-- A tag starts here, and neither a comment nor a document type. -/
theorem IsTagName.contentStep (h : IsTagName name) (r : Text) :
    contentStep '<' (name ++ '>' :: r) =
      cut name.length (some .tag) (.tag (name.map lowerAscii)) := by
  have hlength := h.tagLength r
  have hlower := lower_of_isAscii h.isAscii
  obtain ⟨c, letters, rfl, hc⟩ := h.exists_cons
  have hmark : c ≠ '!' ∧ c ≠ '<' := by
    rcases hc with rfl | hc
    · decide
    · exact ⟨ne_of_class hc rfl, ne_of_class hc rfl⟩
  unfold Html.contentStep
  extract_lets t doctype n
  have hn : n = letters.length + 2 := hlength
  have hcomment : "<!--".toList.isPrefixOf t = false := by simp [t, List.isPrefixOf, hmark.1.symm]
  have hdata : "<![CDATA[".toList.isPrefixOf t = false := by simp [t, List.isPrefixOf, hmark.1.symm]
  have hdoctype : doctype = false := by simp [doctype, t, hmark.1]
  have hname : (t.take n).dropWhile (· = '<') = c :: letters := by
    rw [hn]
    simp [t, hmark.2]
  rw [hcomment, hdata, hdoctype, hname, hlower, hn]
  rfl

/-- A tag without attributes, and what is scanned behind it. -/
theorem segment_tag (h : IsTagName name) (r : Text) :
    segment step .content ('<' :: (name ++ '>' :: r)) =
      ⟨some .tag, '<' :: name⟩ :: ⟨some .tag, ['>']⟩ ::
        segment step (afterTag (name.map lowerAscii) r) r := by
  have hopen : step .content '<' (name ++ '>' :: r) =
      cut name.length (some .tag) (.tag (name.map lowerAscii)) := h.contentStep r
  have hclose : step (.tag (name.map lowerAscii)) '>' r =
      cut 0 (some .tag) (afterTag (name.map lowerAscii) r) := rfl
  rw [segment_cons, hopen]
  simp only [cut]
  rw [List.take_left' rfl, List.drop_left' rfl, segment_cons, hclose]
  rfl

/-! ### Elements with a body -/

/-- The name of an element in any case of its ASCII letters. -/
theorem isTagName_of_lower (hne : name ≠ []) (hname : ∀ c ∈ name, isAsciiLetter c = true) {t : Text}
    (ht : t.map lowerAscii = name) : t ≠ [] ∧ ∀ c ∈ t, isAsciiLetter c = true := by
  subst ht
  exact ⟨by simpa using hne, fun c hc => isAsciiLetter_of_lowerAscii (hname _ (List.mem_map_of_mem hc))⟩

/-- An element whose body is left to another scanner. -/
theorem segment_element {σ : Type} {inner : σ → Char → Text → Cut σ (Option SpanClass)}
    (mode : Nat → σ → Mode) {s : σ}
    (hmode : ∀ left s c r, step (mode left s) c r = embed left mode (inner s c) r)
    (hinner : ∀ s c r, (inner s c r).extra ≤ r.length)
    (hafter : ∀ r, afterTag name r =
      if bodyLength name r = 0 then .content else mode (bodyLength name r) s)
    (hne : name ≠ []) (hname : ∀ c ∈ name, isAsciiLetter c = true ∧ isCaseOf c '<' = false)
    {opening ending : Text} (hopening : opening.map lowerAscii = name)
    (hending : ending.map lowerAscii = name) (hbody : ¬HasWord ('<' :: '/' :: name) body)
    (rest : Text) :
    spans ('<' :: (opening ++ '>' :: (body ++ '<' :: '/' :: (ending ++ '>' :: rest)))) =
      ⟨some .tag, '<' :: opening⟩ :: ⟨some .tag, ['>']⟩ :: (segment inner s body ++
        ⟨some .tag, '<' :: '/' :: ending⟩ :: ⟨some .tag, ['>']⟩ :: spans rest) := by
  have hletters : ∀ c ∈ name, isAsciiLetter c = true := fun c hc => (hname c hc).1
  obtain ⟨hopenNe, hopenLetters⟩ := isTagName_of_lower hne hletters hopening
  obtain ⟨hendNe, hendLetters⟩ := isTagName_of_lower hne hletters hending
  have hfound : afterWord? name (ending ++ '>' :: rest) = some ('>' :: rest) :=
    afterWord?_eq_some_iff.mpr ⟨ending, rfl, hending ▸ isWordOf_map_lowerAscii ending⟩
  have hlength : bodyLength name (body ++ '<' :: '/' :: (ending ++ '>' :: rest)) = body.length :=
    bodyLength_append (fun c hc => (hname c hc).2) hbody (by rw [hfound]; rfl)
  -- An end tag leads back to what stands between tags: no name of an element begins with a slash.
  have hclosed : afterTag (('/' :: ending).map lowerAscii) rest = .content := rfl
  have hendTag := segment_tag (.ending hendNe hendLetters) rest
  rw [hclosed, List.cons_append] at hendTag
  rw [spans, segment_tag (.start hopenNe hopenLetters), hopening, hafter, hlength,
    segment_embedded hmode hinner, hendTag]
  rfl

/-- The elements whose bodies are code, with the scanners of their languages. -/
def bodyScanners : List (Text × (Text → List Span)) :=
  [("style".toList, Css.spans), ("script".toList, Script.spans [])]

/-- **Embedded code is left to its scanner, and the scan goes on behind it.** Take a style or script
element, its name in any case, with a body in which no end tag of that name starts. The spans are those
of the start tag, of the body as a style sheet or a script of its own, of the end tag, and of what
stands behind it as HTML of its own. -/
theorem spans_embedded {scanBody : Text → List Span} (h : (name, scanBody) ∈ bodyScanners)
    {opening ending : Text} (hopening : opening.map lowerAscii = name)
    (hending : ending.map lowerAscii = name) (hbody : ¬HasWord ('<' :: '/' :: name) body)
    (rest : Text) :
    spans ('<' :: (opening ++ '>' :: (body ++ '<' :: '/' :: (ending ++ '>' :: rest)))) =
      ⟨some .tag, '<' :: opening⟩ :: ⟨some .tag, ['>']⟩ :: (scanBody body ++
        ⟨some .tag, '<' :: '/' :: ending⟩ :: ⟨some .tag, ['>']⟩ :: spans rest) := by
  rcases List.mem_cons.mp h with hstyle | h
  · obtain ⟨rfl, rfl⟩ := Prod.mk.inj hstyle
    exact segment_element .style (fun _ _ _ _ => rfl) Css.extra_step_le (fun _ => rfl)
      (List.cons_ne_nil _ _) (forall_mem_of_all (by decide)) hopening hending hbody rest
  · obtain ⟨rfl, rfl⟩ := Prod.mk.inj (List.mem_singleton.mp h)
    exact segment_element .script (fun _ _ _ _ => rfl) (Script.extra_step_le [])
      (fun _ => rfl) (List.cons_ne_nil _ _) (forall_mem_of_all (by decide)) hopening hending hbody rest

/-- The body of an element in which a string and a comment are open and an end tag is cut short. -/
def brokenBody : Text :=
  "a = '</style><!-- ' /* </scrip".toList

/-- Neither the string and the comment nor the other end tag hides the end of the body, and behind it a
style sheet is found again. -/
theorem spans_embedded_broken :
    ¬HasWord "</script".toList brokenBody ∧
      spans ("<SCRIPT>".toList ++ brokenBody ++ "</Script><style>p\x7b".toList) =
        ⟨some .tag, "<SCRIPT".toList⟩ :: ⟨some .tag, ['>']⟩ :: (Script.spans [] brokenBody ++
          ⟨some .tag, "</Script".toList⟩ :: ⟨some .tag, ['>']⟩ :: spans "<style>p\x7b".toList) := by
  have hbody : ¬HasWord "</script".toList brokenBody := by decide +kernel
  have hopening : "SCRIPT".toList.map lowerAscii = "script".toList := by decide
  have hending : "Script".toList.map lowerAscii = "script".toList := by decide
  exact ⟨hbody, spans_embedded (List.mem_cons_of_mem _ List.mem_cons_self) hopening hending hbody
    "<style>p\x7b".toList⟩

end Highlight.Html

end Markdown
