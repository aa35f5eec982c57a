import Markdown.Proofs.Lossless
import Markdown.Proofs.Undisturbed

/-!
# Colours are marked in texts only

Two rules mark colours in HTML, one in highlighted code and one in paragraphs. Both run on the texts
between tags. If every `<` of the HTML is closed, a text between tags has no `<` at all, so what the rule
makes of it has only the tags that the rule itself writes, and none of them goes together with a tag of
the HTML. Hence all tags of the HTML stay, in their places, and without tags nothing has changed
(`Html.colors_only_in_texts`).
-/

namespace Markdown

open Text

namespace Html

/-! ### HTML in which every tag ends -/

/-- Whether a `>` stands somewhere behind each `<`. -/
def isClosed : Text → Bool
  | [] => true
  | c :: r => (c ≠ '<' || '>' ∈ r) && isClosed r

variable {t u tag : Text}

theorem isClosed_cons {c : Char} {r : Text} :
    isClosed (c :: r) = true ↔ (c = '<' → '>' ∈ r) ∧ isClosed r = true := by
  simp [isClosed, Classical.or_iff_not_imp_left]

theorem isClosed_of_not_mem (h : '<' ∉ t) : isClosed t = true := by
  induction t with
  | nil => rfl
  | cons c r ih =>
    obtain ⟨hc, hr⟩ := List.ne_and_not_mem_of_not_mem_cons h
    exact isClosed_cons.mpr ⟨fun heq => absurd heq.symm hc, ih hr⟩

/-- The end of closed HTML is closed. -/
theorem isClosed_right {s : Text} (h : isClosed (s ++ t) = true) : isClosed t = true := by
  induction s with
  | nil => exact h
  | cons c s ih => exact ih (isClosed_cons.mp h).2

theorem isClosed_append {s : Text} (hs : isClosed s = true) (ht : isClosed t = true) :
    isClosed (s ++ t) = true := by
  induction s with
  | nil => exact ht
  | cons c s ih =>
    obtain ⟨hc, hrest⟩ := isClosed_cons.mp hs
    exact isClosed_cons.mpr ⟨fun heq => List.mem_append_left _ (hc heq), ih hrest⟩

/-- Of the characters of a tag only the last one is `>`, so a `<` in the middle is closed too. -/
theorem IsTag.isClosed (h : IsTag tag) : isClosed tag = true := by
  obtain ⟨inner, rfl, -⟩ := h
  have hinner : ∀ s : Text, Html.isClosed (s ++ ['>']) = true := by
    intro s
    induction s with
    | nil => rfl
    | cons c s ih => exact isClosed_cons.mpr ⟨fun _ => by simp, ih⟩
  exact hinner ('<' :: inner)

/-- Closed HTML with a `<` begins with a text, perhaps an empty one, and a tag. -/
theorem exists_tag_of_mem (h : isClosed t = true) (hmem : '<' ∈ t) :
    ∃ u tag r, t = u ++ (tag ++ r) ∧ '<' ∉ u ∧ IsTag tag ∧ isClosed r = true := by
  obtain ⟨u, s, rfl, hu⟩ := List.eq_append_cons_of_mem hmem
  obtain ⟨hend, -⟩ := isClosed_cons.mp (isClosed_right h)
  obtain ⟨inner, r, rfl, hinner⟩ := List.eq_append_cons_of_mem (hend rfl)
  refine ⟨u, '<' :: (inner ++ ['>']), r, by simp, hu, ⟨inner, rfl, hinner⟩, ?_⟩
  exact (isClosed_cons.mp (isClosed_right (isClosed_cons.mp (isClosed_right h)).2)).2

/-- **Induction over closed HTML:** a last text, or a text and a tag in front of closed HTML. -/
theorem closed_induction {motive : (t : Text) → isClosed t = true → Prop}
    (last : ∀ (u : Text) (hu : '<' ∉ u), motive u (isClosed_of_not_mem hu))
    (next : ∀ (u tag r : Text) (hu : '<' ∉ u) (htag : IsTag tag) (hr : isClosed r = true),
      motive r hr → motive (u ++ (tag ++ r))
        (isClosed_append (isClosed_of_not_mem hu) (isClosed_append htag.isClosed hr)))
    (t : Text) (ht : isClosed t = true) : motive t ht := by
  induction hn : t.length using Nat.strongRecOn generalizing t with
  | ind n ih =>
    by_cases hmem : '<' ∈ t
    · obtain ⟨u, tag, r, rfl, hu, htag, hr⟩ := exists_tag_of_mem ht hmem
      refine next u tag r hu htag hr (ih r.length ?_ r hr rfl)
      obtain ⟨inner, rfl, -⟩ := htag
      simp only [List.length_append, List.length_cons] at hn
      omega
    · exact last t hmem

/-! ### Parts of closed HTML -/

/-- A text and a tag behind it are parts of their own. -/
theorem parts_text_tag (hu : '<' ∉ u) (htag : IsTag tag) (r : Text) :
    parts (u ++ (tag ++ r)) = parts u ++ ⟨.tag, tag⟩ :: parts r := by
  by_cases hne : u = []
  · subst hne
    rw [List.nil_append, parts_tag htag, parts_nil, List.nil_append]
  · rw [parts_text hne hu htag, parts_of_not_mem hne hu, parts_tag htag]
    rfl

/-- So is all closed HTML in front of a tag. -/
theorem parts_closed_tag (ht : isClosed t = true) (htag : IsTag tag) (r : Text) :
    parts (t ++ (tag ++ r)) = parts t ++ ⟨.tag, tag⟩ :: parts r := by
  induction t, ht using closed_induction with
  | last u hu => exact parts_text_tag hu htag r
  | next u tag' t hu htag' _ ih =>
    rw [List.append_assoc, List.append_assoc, parts_text_tag hu htag', parts_text_tag hu htag', ih,
      List.append_assoc]
    rfl

/-- A text between the tags of closed HTML has no `<`. -/
theorem not_mem_of_mem_parts (ht : isClosed t = true) {p : Segment Part} (hp : p ∈ parts t)
    (htext : p.label = .text) : '<' ∉ p.text := by
  have hlast : ∀ u : Text, '<' ∉ u → p ∈ parts u → '<' ∉ p.text := by
    intro u hu hp
    by_cases hne : u = []
    · subst hne
      simp at hp
    · rw [parts_of_not_mem hne hu, List.mem_singleton] at hp
      rwa [hp]
  induction t, ht using closed_induction with
  | last u hu => exact hlast u hu hp
  | next u tag r hu htag _ ih =>
    rw [parts_text_tag hu htag, List.mem_append, List.mem_cons] at hp
    rcases hp with hp | rfl | hp
    · exact hlast u hu hp
    · cases htext
    · exact ih hp

/-- If texts become closed HTML, the parts of the whole are the tags and the parts of these. -/
theorem parts_mapTexts {f : Text → Text} (hf : f [] = [])
    (hclosed : ∀ u, '<' ∉ u → isClosed (f u) = true) (ht : isClosed t = true) :
    parts (mapTexts f t) = (parts t).flatMap fun p =>
      match p.label with
      | .tag => [p]
      | .text => parts (f p.text) := by
  have htext : ∀ u, '<' ∉ u → (parts u).flatMap (fun p =>
      match p.label with
      | .tag => [p]
      | .text => parts (f p.text)) = parts (f u) := by
    intro u hu
    by_cases hne : u = []
    · subst hne
      simp [hf]
    · rw [parts_of_not_mem hne hu, List.flatMap_singleton]
  induction t, ht using closed_induction with
  | last u hu => rw [mapTexts_of_not_mem hf hu, htext u hu]
  | next u tag r hu htag _ ih =>
    rw [mapTexts_text hf hu htag, parts_closed_tag (hclosed u hu) htag, ih, parts_text_tag hu htag,
      List.flatMap_append, List.flatMap_cons, htext u hu]
    rfl

/-! ### Marked texts -/

/-- HTML that shows a text, as it is, in between tags of some kind. -/
structure Marks (isOwn : Text → Prop) (html text : Text) : Prop where
  /-- Its tags end. -/
  closed : isClosed html = true
  /-- Without tags it is the text, wherever it stands. -/
  withoutTags_append : ∀ r, withoutTags (html ++ r) = text ++ withoutTags r
  /-- Its tags are of the kind. -/
  tags_append : ∃ ts, (∀ tag ∈ ts, isOwn tag) ∧ ∀ r, tags (html ++ r) = ts ++ tags r

variable {isOwn : Text → Prop} {html html' text text' : Text}

theorem marks_text (h : '<' ∉ u) : Marks isOwn u u :=
  ⟨isClosed_of_not_mem h, withoutTags_append h, [], by simp, tags_append h⟩

theorem marks_tag (h : IsTag tag) (hown : isOwn tag) : Marks isOwn tag [] :=
  ⟨h.isClosed, withoutTags_tag h, [tag], by simpa using hown, tags_tag h⟩

theorem Marks.append (h : Marks isOwn html text) (h' : Marks isOwn html' text') :
    Marks isOwn (html ++ html') (text ++ text') := by
  obtain ⟨ts, hown, hts⟩ := h.tags_append
  obtain ⟨ts', hown', hts'⟩ := h'.tags_append
  refine ⟨isClosed_append h.closed h'.closed, fun r => ?_, ts ++ ts', ?_, fun r => ?_⟩
  · rw [List.append_assoc, h.withoutTags_append, h'.withoutTags_append, List.append_assoc]
  · exact List.forall_mem_append.mpr ⟨hown, hown'⟩
  · rw [List.append_assoc, hts, hts', List.append_assoc]

/-- If each part of a text is marked, the whole text is. -/
theorem marks_written {ps : List (Segment (Option Text))}
    (h : ∀ p ∈ ps, Marks isOwn (p.label.getD p.text) p.text) :
    Marks isOwn (written ps) (source ps) := by
  induction ps with
  | nil => exact marks_text List.not_mem_nil
  | cons p ps ih =>
    obtain ⟨hp, hps⟩ := List.forall_mem_cons.mp h
    exact hp.append (ih hps)

/-- A rule marks a text if it marks what each of its hits takes. -/
theorem marks_replaceBy {rule : Rule}
    (hrule : ∀ before c r hit old rest, rule before c r = some hit → hit.Takes c r old rest →
      Marks isOwn hit.text old) (hu : '<' ∉ u) : Marks isOwn (replaceBy rule u) u := by
  have hsource := source_pieces rule u
  have hpieces : Marks isOwn (written (pieces rule u)) (source (pieces rule u)) := by
    refine marks_written fun p hp => ?_
    cases hlabel : p.label with
    | none =>
      refine marks_text fun hmem => hu ?_
      rw [← hsource]
      exact List.mem_flatMap.mpr ⟨p, hp, hmem⟩
    | some html =>
      obtain ⟨before, c, r, hit, rest, hhit, htakes, rfl⟩ := exists_hit_of_mem_pieces hp hlabel
      exact hrule before c r hit p.text rest hhit htakes
  rwa [hsource] at hpieces

/-! ### Rules on texts -/

/-- HTML that comes from other HTML by a rule which marks texts. -/
structure OnlyMarksTexts (rule : Rule) (isOwn : Text → Prop) (t result : Text) : Prop where
  /-- The tags are parts of the result as before, in the same order, and the parts between them come
  from the texts there. -/
  parts_eq : parts result = (parts t).flatMap fun p =>
    match p.label with
    | .tag => [p]
    | .text => parts (replaceBy rule p.text)
  /-- In each text, there are only tags of the kind that were not there before. -/
  texts : ∀ p ∈ parts t, p.label = .text →
    withoutTags (replaceBy rule p.text) = p.text ∧ ∀ tag ∈ tags (replaceBy rule p.text), isOwn tag
  /-- Without tags, nothing has changed. -/
  withoutTags_eq : withoutTags result = withoutTags t

theorem onlyMarksTexts_mapTexts {rule : Rule}
    (hrule : ∀ u, '<' ∉ u → Marks isOwn (replaceBy rule u) u) (ht : isClosed t = true) :
    OnlyMarksTexts rule isOwn t (mapTexts (replaceBy rule) t) := by
  have hnil : replaceBy rule [] = [] := replaceFrom_nil rule none
  have hparts := parts_mapTexts hnil (fun u hu => (hrule u hu).closed) ht
  have htexts : ∀ p ∈ parts t, p.label = .text → Marks isOwn (replaceBy rule p.text) p.text :=
    fun p hp htext => hrule _ (not_mem_of_mem_parts ht hp htext)
  refine ⟨hparts, fun p hp htext => ⟨?_, ?_⟩, ?_⟩
  · simpa using (htexts p hp htext).withoutTags_append []
  · obtain ⟨ts, hown, hts⟩ := (htexts p hp htext).tags_append
    have htags : tags (replaceBy rule p.text) = ts := by simpa using hts []
    rwa [htags]
  · rw [withoutTags, hparts, withoutTags, List.flatMap_assoc]
    refine List.flatMap_congr fun p hp => ?_
    cases hlabel : p.label with
    | tag => simp [hlabel]
    | text => simpa [withoutTags] using (htexts p hp hlabel).withoutTags_append []

end Html

/-! ### Colours -/

/-- A colour: `#` with three or six hexadecimal digits. -/
def IsHexColor (color : Text) : Prop :=
  ∃ digits, color = '#' :: digits ∧ (digits.length = 3 ∨ digits.length = 6) ∧
    ∀ d ∈ digits, isHexDigit d = true

open Html

variable {u color : Text}

theorem IsHexColor.not_mem (h : IsHexColor color) : '<' ∉ color ∧ '>' ∉ color := by
  obtain ⟨digits, rfl, -, hex⟩ := h
  have hmark : ∀ c, c ≠ '#' → isHexDigit c = false → c ∉ '#' :: digits := by
    intro c hc hdigit hmem
    rcases List.mem_cons.mp hmem with rfl | hmem
    · exact hc rfl
    · exact absurd (hex c hmem) (by simp [hdigit])
  exact ⟨hmark _ (by decide) (by decide), hmark _ (by decide) (by decide)⟩

namespace Highlight

/-- A tag of a swatch in highlighted code. -/
inductive IsSwatchTag : Text → Prop where
  /-- The opening tag, with the colour. -/
  | opening {color : Text} (h : IsHexColor color) : IsSwatchTag (swatchTag color)
  /-- The closing tag. -/
  | closing : IsSwatchTag "</span>".toList

theorem marks_swatch (h : IsHexColor color) : Marks IsSwatchTag (swatch color) color := by
  have hswatch := (marks_tag (isTag_swatchTag h.not_mem.2) (IsSwatchTag.opening h)).append
    ((marks_text h.not_mem.1).append (marks_tag isTag_end IsSwatchTag.closing))
  rwa [← swatch_eq, List.nil_append, List.append_nil] at hswatch

theorem marks_swatchRule (hu : '<' ∉ u) : Marks IsSwatchTag (replaceBy swatchRule u) u := by
  refine marks_replaceBy (fun before c r hit old rest hhit htakes => ?_) hu
  obtain ⟨digits, rest', -, htakes', htext, size, hex⟩ := swatchRule_eq_some hhit
  obtain rfl : '#' :: digits = old := htakes'.take.symm.trans htakes.take
  rw [htext]
  exact marks_swatch ⟨digits, rfl, size, hex⟩

end Highlight

namespace Inline

/-- The opening tag of the sample of a colour. -/
def sampleTag (color : Text) : Text :=
  "<span class=\"color-swatch\" style=\"background-color: ".toList ++ color ++ "\">".toList

/-- A tag of a colour in a paragraph. -/
inductive IsPreviewTag : Text → Prop where
  /-- The opening tag in front of the sample. -/
  | opening : IsPreviewTag "<span class=\"color-preview\">".toList
  /-- The opening tag of the sample, with the colour. -/
  | sample {color : Text} (h : IsHexColor color) : IsPreviewTag (sampleTag color)
  /-- The closing tag of the sample and of the whole. -/
  | closing : IsPreviewTag "</span>".toList

theorem isTag_previewTag : IsTag "<span class=\"color-preview\">".toList :=
  ⟨"span class=\"color-preview\"".toList, rfl, by decide⟩

theorem isTag_sampleTag (h : '>' ∉ color) : IsTag (sampleTag color) := by
  refine ⟨"span class=\"color-swatch\" style=\"background-color: ".toList ++ color ++ ['"'], ?_, ?_⟩
  · unfold sampleTag
    repeat rw [String.toList_ofList]
    simp
  · simp [h]

theorem colorPreview_eq (color : Text) :
    colorPreview color = "<span class=\"color-preview\">".toList ++ (sampleTag color ++
      ("</span>".toList ++ (color ++ "</span>".toList))) := by
  unfold colorPreview sampleTag
  repeat rw [String.toList_ofList]
  simp

theorem marks_colorPreview (h : IsHexColor color) : Marks IsPreviewTag (colorPreview color) color := by
  have hend : Marks IsPreviewTag "</span>".toList [] := marks_tag Highlight.isTag_end .closing
  have hpreview := (marks_tag isTag_previewTag IsPreviewTag.opening).append
    ((marks_tag (isTag_sampleTag h.not_mem.2) (IsPreviewTag.sample h)).append
      (hend.append ((marks_text h.not_mem.1).append hend)))
  rwa [← colorPreview_eq, List.nil_append, List.nil_append, List.nil_append, List.append_nil]
    at hpreview

theorem marks_colorRule (hu : '<' ∉ u) : Marks IsPreviewTag (replaceBy colorRule u) u := by
  refine marks_replaceBy (fun before c r hit old rest hhit htakes => ?_) hu
  obtain ⟨digits, rest', -, htakes', htext, size, hex⟩ := colorRule_eq_some hhit
  obtain rfl : '#' :: digits = old := htakes'.take.symm.trans htakes.take
  rw [htext]
  exact marks_colorPreview ⟨digits, rfl, size, hex⟩

/-- No text between the tags of closed HTML begins with `<`, so colours are looked for in all texts. -/
theorem colorPreviews_of_isClosed {t : Text} (ht : isClosed t = true) :
    colorPreviews t = mapTexts (replaceBy colorRule) t := by
  refine List.flatMap_congr fun p hp => ?_
  cases hlabel : p.label with
  | tag => rfl
  | text =>
    have hopen := not_mem_of_mem_parts ht hp hlabel
    exact if_neg fun hstarts => hopen ((List.isPrefixOf_iff_prefix.mp hstarts).mem (by simp))

end Inline

/-- **Colours are marked in texts only.** In HTML with a `>` behind each `<`, both rules for colours keep
all tags where they are. The tags that they put into the texts between them are their own, with colours of
three or six hexadecimal digits, and without all tags the HTML is the same as before. -/
theorem Html.colors_only_in_texts (t : Text) (ht : isClosed t = true) :
    OnlyMarksTexts Highlight.swatchRule Highlight.IsSwatchTag t (Highlight.decorateColors t) ∧
      OnlyMarksTexts Inline.colorRule Inline.IsPreviewTag t (Inline.colorPreviews t) := by
  refine ⟨onlyMarksTexts_mapTexts (fun u hu => Highlight.marks_swatchRule hu) ht, ?_⟩
  rw [Inline.colorPreviews_of_isClosed ht]
  exact onlyMarksTexts_mapTexts (fun u hu => Inline.marks_colorRule hu) ht

/-- A colour in an attribute, a reference, a colour with a swatch, runs of digits that are too long, and
a tag with another `<` in it. -/
theorem Html.colors_only_in_texts_mixed :
    let t := "<a href=\"#abc\">&#039;#f0f</a><b <i>#abcd #1234567".toList
    isClosed t = true ∧
      Inline.colorPreviews t = ("<a href=\"#abc\">&#039;".toList ++ Inline.colorPreview "#f0f".toList ++
        "</a><b <i>#abcd #1234567".toList) ∧
      OnlyMarksTexts Highlight.swatchRule Highlight.IsSwatchTag t (Highlight.decorateColors t) ∧
      OnlyMarksTexts Inline.colorRule Inline.IsPreviewTag t (Inline.colorPreviews t) := by
  intro t
  have ht : isClosed t = true := by decide +kernel
  exact ⟨ht, by decide +kernel, Html.colors_only_in_texts t ht⟩

end Markdown
