import Markdown.Proofs.Hits
import Markdown.Proofs.Reader

/-!
# Attribute values in the HTML of inline text

When sanitizing, the double quotes in the HTML of an inline text are those of the tags that the
rules write. The rules up to the images cannot end an attribute value, since there is none yet. A
later rule can: it looks at the whole text, tags included, and may find a link, a reference, an
address, a footnote or a colour in a value that an earlier rule has written. `Undisturbed` says that
this does not happen, and `contained_render_of_undisturbed` that the HTML can then be read tag by tag.
-/

namespace Markdown

open Text Html

namespace Inline

/-! ### Texts without attributes -/

/-- The text can be read tag by tag and has no double quote, so none of its tags has attributes. -/
structure Bare (t : Text) : Prop where
  /-- The text can be read. -/
  contained : Contained t
  /-- There are no double quotes. -/
  quote : '"' ∉ t

theorem Bare.append {s t : Text} (hs : Bare s) (ht : Bare t) : Bare (s ++ t) :=
  ⟨hs.contained.append ht.contained, by simp [hs.quote, ht.quote]⟩

theorem bare_of_not_mem {t : Text} (h : '<' ∉ t) (hquote : '"' ∉ t) : Bare t :=
  ⟨contained_of_not_mem h, hquote⟩

/-- A character at which a bare text can be cut: it stands in no tag without attributes. -/
def CutsBare (c : Char) : Prop :=
  Reader.isForeign c = true ∨ c = '='

theorem CutsBare.ne_lt {c : Char} (h : CutsBare c) : c ≠ '<' := by
  rintro rfl
  rcases h with h | h
  · exact absurd h (by decide)
  · exact absurd h (by decide)

/-- A bare text is cut at a mark into what is before the mark and what follows it. -/
theorem Bare.split {s t : Text} {c : Char} (h : Bare (s ++ c :: t)) (hc : CutsBare c) :
    Bare s ∧ Bare t := by
  obtain ⟨hread, hquote⟩ := h
  simp only [List.mem_append, List.mem_cons, not_or] at hquote
  obtain ⟨hs, -, ht⟩ := hquote
  have hbefore : Contained s := by
    rcases hc with hc | rfl
    · exact Reader.eq_text_of_foreign hc hread hs
    · exact Reader.eq_text_of_equals hread hs ht
  have hbehind : Contained (c :: t) := hread.behind hbefore
  refine ⟨⟨hbefore, hs⟩, ⟨?_, ht⟩⟩
  unfold Contained at *
  rwa [Reader.read_cons, Reader.step, if_neg hc.ne_lt] at hbehind

/-! ### The source -/

/-- The text has neither `<` nor a double quote. -/
def Quiet (t : Text) : Prop :=
  '<' ∉ t ∧ '"' ∉ t

theorem quiet_nil : Quiet [] :=
  ⟨List.not_mem_nil, List.not_mem_nil⟩

theorem Quiet.append {s t : Text} (hs : Quiet s) (ht : Quiet t) : Quiet (s ++ t) :=
  ⟨by simp [hs.1, ht.1], by simp [hs.2, ht.2]⟩

theorem quiet_append_iff {s t : Text} : Quiet (s ++ t) ↔ Quiet s ∧ Quiet t := by
  simp only [Quiet, List.mem_append, not_or]
  constructor
  · rintro ⟨⟨hs, ht⟩, hs', ht'⟩
    exact ⟨⟨hs, hs'⟩, ht, ht'⟩
  · rintro ⟨⟨hs, hs'⟩, ht, ht'⟩
    exact ⟨⟨hs, ht⟩, hs', ht'⟩

theorem Quiet.of_cons {c : Char} {t : Text} (h : Quiet (c :: t)) : Quiet t :=
  (quiet_append_iff.mp (show Quiet ([c] ++ t) from h)).2

theorem Quiet.bare {t : Text} (h : Quiet t) : Bare t :=
  bare_of_not_mem h.1 h.2

theorem quiet_escape (t : Text) : Quiet (escape t) := by
  have hchar : ∀ c, Quiet (escapeChar c) := by
    intro c
    unfold escapeChar
    split
    · exact ⟨by decide, by decide⟩
    · exact ⟨by decide, by decide⟩
    · exact ⟨by decide, by decide⟩
    · exact ⟨by decide, by decide⟩
    · exact ⟨by decide, by decide⟩
    · next hlt _ hquote _ =>
      exact ⟨by simpa using Ne.symm hlt, by simpa using Ne.symm hquote⟩
  induction t with
  | nil => exact quiet_nil
  | cons c t ih =>
    rw [escape_cons]
    exact (hchar c).append ih

theorem quiet_standIn : ∀ n < escapable.length, Quiet [standIn n] := by
  unfold Quiet
  decide

theorem quiet_protectEscapes {t : Text} (h : Quiet t) : Quiet (protectEscapes t) := by
  refine replaceBy_of_hits (fun _ => id) (fun _ _ => Quiet.append) ?_ h
  intro before x c r hit hsource _ hrule
  obtain ⟨n, s, rest, hs, htakes, htext⟩ := escapeRule_eq_some hrule
  obtain ⟨hn, -⟩ := List.getElem?_eq_some_iff.mp hs
  rw [htakes.split] at hsource
  obtain ⟨hx, hsource⟩ := quiet_append_iff.mp hsource
  rw [htext, htakes.drop]
  exact ⟨hx, quiet_standIn n hn, (quiet_append_iff.mp hsource).2⟩

theorem quiet_ofNat (n : Nat) : Quiet (ofNat n) := by
  have hdigit : ∀ c ∈ ofNat n, c.isDigit = true := fun c hc =>
    Nat.isDigit_of_mem_toDigits (by decide) (by decide) hc
  exact ⟨fun h => absurd (hdigit _ h) (by decide), fun h => absurd (hdigit _ h) (by decide)⟩

/-- Neither a text with its code spans put aside nor their contents have `<` or a double quote. -/
theorem quiet_protectCode {t : Text} (h : Quiet t) :
    Quiet (protectCode [] t).1 ∧
      ∀ s ∈ (protectCode [] t).2, ∃ body, Quiet body ∧ s = element "code" body := by
  have hmark : ∀ n, Quiet (codeMark n) := fun n => by
    have hends : Quiet [codeOpen] ∧ Quiet [codeClose] := by
      unfold Quiet
      decide
    exact hends.1.append ((quiet_ofNat n).append hends.2)
  refine stashSpans_of_hits (fun _ => id) (fun _ _ => Quiet.append) hmark ?_ 0 [] t h
  intro x body rest hsource _
  obtain ⟨hx, hsource⟩ := quiet_append_iff.mp hsource
  obtain ⟨hbody, hrest⟩ := quiet_append_iff.mp hsource.of_cons
  exact ⟨hx, hbody, hrest.of_cons⟩

/-! ### Paired marks -/

/-- The name of an element, as paired marks have them. -/
def IsName (name : String) : Prop :=
  name.toList ≠ [] ∧ name.toList.all isTagChar = true

theorem bare_element {name : String} (hname : IsName name) {t : Text} (h : Bare t) :
    Bare (element name t) := by
  obtain ⟨hne, hall⟩ := hname
  rw [List.all_eq_true] at hall
  have hnot : '"' ∉ name.toList := fun hmem => absurd (hall _ hmem) (by decide)
  have hopen : Bare ('<' :: (name.toList ++ ['>'])) :=
    ⟨Reader.read_opening hne hall, by simpa using hnot⟩
  have hclose : Bare ('<' :: '/' :: (name.toList ++ ['>'])) :=
    ⟨Reader.read_ending hne hall, by simpa using hnot⟩
  have hwhole := hopen.append (h.append hclose)
  unfold element
  simpa using hwhole

/-- The rule keeps texts bare. -/
def KeepsBare (rule : Rule) : Prop :=
  ∀ t, Bare t → Bare (replaceBy rule t)

theorem keepsBare_longSpan {mark : Text} {words : Bool} {wrap : Text → Text} (hmark : mark ≠ [])
    (hcuts : ∀ c ∈ mark, CutsBare c) (hwrap : ∀ t, Bare t → Bare (wrap t)) :
    KeepsBare (longSpan mark words wrap) := by
  have hsplit : ∀ {mark : Text}, mark ≠ [] → (∀ c ∈ mark, CutsBare c) → ∀ {s t : Text},
      Bare (s ++ (mark ++ t)) → Bare s ∧ Bare t := by
    intro mark hmark hcuts
    induction mark with
    | nil => exact absurd rfl hmark
    | cons c mark ih =>
      intro s t h
      obtain ⟨hs, h⟩ := h.split (hcuts c (by simp))
      by_cases hnil : mark = []
      · subst hnil
        exact ⟨hs, h⟩
      · exact ⟨hs, (ih hnil (fun d hd => hcuts d (by simp [hd])) (s := []) h).2⟩
  intro t h
  refine replaceBy_of_hits (fun _ => id) (fun _ _ => Bare.append) ?_ h
  intro before x c r hit hsource _ hrule
  obtain ⟨inner, rest, htakes, htext, -, -⟩ := longSpan_eq_some hmark hrule
  rw [htakes.split] at hsource
  simp only [List.append_assoc] at hsource
  obtain ⟨hx, hsource⟩ := hsplit hmark hcuts hsource
  obtain ⟨hinner, hrest⟩ := hsplit hmark hcuts hsource
  rw [htext, htakes.drop]
  exact ⟨hx, hwrap _ hinner, hrest⟩

theorem keepsBare_shortSpan {s : SpanStyle} {wrap : Text → Text} (hcuts : CutsBare s.mark)
    (hwrap : ∀ t, Bare t → Bare (wrap t)) : KeepsBare (shortSpan s wrap) := by
  intro t h
  refine replaceBy_of_hits (fun _ => id) (fun _ _ => Bare.append) ?_ h
  intro before x c r hit hsource _ hrule
  obtain ⟨inner, rest, htakes, htext, -, -⟩ := shortSpan_eq_some hrule
  rw [htakes.split] at hsource
  simp only [List.cons_append, List.append_assoc, List.nil_append] at hsource
  obtain ⟨hx, hsource⟩ := hsource.split hcuts
  obtain ⟨hinner, hrest⟩ := hsource.split hcuts
  rw [htext, htakes.drop]
  exact ⟨hx, hwrap _ hinner, hrest⟩

theorem bare_applyRules {rules : List Rule} (hrules : ∀ rule ∈ rules, KeepsBare rule) {t : Text}
    (h : Bare t) : Bare (applyRules rules t) := by
  induction rules generalizing t with
  | nil => exact h
  | cons rule rules ih =>
    exact ih (fun rule hrule => hrules rule (by simp [hrule])) (hrules rule (by simp) t h)

theorem isName_spanNames :
    (IsName "strong" ∧ IsName "em" ∧ IsName "code") ∧ IsName "del" ∧ IsName "mark" ∧ IsName "sup" ∧
      IsName "sub" := by
  unfold IsName
  repeat rw [String.toList_ofList]
  decide

theorem keepsBare_emphasisRules : ∀ rule ∈ emphasisRules, KeepsBare rule := by
  obtain ⟨⟨hstrong, hem, -⟩, -⟩ := isName_spanNames
  have hstar : CutsBare '*' := .inl (by decide)
  have hunderscore : CutsBare '_' := .inl (by decide)
  have hstars : ∀ n, ∀ c ∈ List.replicate n '*', CutsBare c := fun n c hc =>
    List.eq_of_mem_replicate hc ▸ hstar
  have hunderscores : ∀ n, ∀ c ∈ List.replicate n '_', CutsBare c := fun n c hc =>
    List.eq_of_mem_replicate hc ▸ hunderscore
  have hboth : ∀ t, Bare t → Bare (element "strong" (element "em" t)) := fun t ht =>
    bare_element hstrong (bare_element hem ht)
  intro rule hrule
  simp only [emphasisRules, List.mem_cons, List.not_mem_nil, or_false] at hrule
  rcases hrule with rfl | rfl | rfl | rfl | rfl | rfl
  · exact keepsBare_longSpan (by decide) (hstars 3) hboth
  · exact keepsBare_longSpan (by decide) (hunderscores 3) hboth
  · exact keepsBare_longSpan (by decide) (hstars 2) fun t ht => bare_element hstrong ht
  · exact keepsBare_longSpan (by decide) (hunderscores 2) fun t ht => bare_element hstrong ht
  · exact keepsBare_shortSpan hstar fun t ht => bare_element hem ht
  · exact keepsBare_shortSpan hunderscore fun t ht => bare_element hem ht

theorem keepsBare_decorationRules : ∀ rule ∈ decorationRules, KeepsBare rule := by
  obtain ⟨-, hdel, hmark, hsup, hsub⟩ := isName_spanNames
  have htilde : CutsBare '~' := .inl (by decide)
  intro rule hrule
  simp only [decorationRules, List.mem_cons, List.not_mem_nil, or_false] at hrule
  rcases hrule with rfl | rfl | rfl | rfl
  · exact keepsBare_longSpan (by decide)
      (fun c (hc : c ∈ List.replicate 2 '~') => List.eq_of_mem_replicate hc ▸ htilde)
      fun t ht => bare_element hdel ht
  · exact keepsBare_longSpan (by decide)
      (fun c (hc : c ∈ List.replicate 2 '=') => .inr (List.eq_of_mem_replicate hc))
      fun t ht => bare_element hmark ht
  · exact keepsBare_shortSpan (.inl (by decide)) fun t ht => bare_element hsup ht
  · exact keepsBare_shortSpan htilde fun t ht => bare_element hsub ht

/-! ### Tags with attributes -/

/-- What the texts of the tags do to a reader. -/
theorem read_linkTexts :
    (Reader.text.read "<a href=\"".toList = .value ∧ Reader.text.read "</a>".toList = .text ∧
      Reader.closed.read " title=\"".toList = .value) ∧
    (Reader.text.read "<img src=\"".toList = .value ∧
      Reader.value.read "\" alt=\"".toList = .value ∧ Reader.closed.read " />".toList = .text) ∧
    Reader.text.read "<a href=\"#fn-".toList = .value ∧
    Reader.value.read "\" id=\"fnref-".toList = .value ∧
    Reader.value.read "\" class=\"footnote-ref\">[".toList = .text ∧
    Reader.text.read "]</a>".toList = .text := by
  repeat rw [String.toList_ofList]
  decide +kernel

theorem read_lineTexts :
    Reader.text.read
      "<span class=\"color-preview\"><span class=\"color-swatch\" style=\"background-color: ".toList =
        .value ∧
    Reader.value.read "\"></span>".toList = .text ∧ Reader.text.read "</span>".toList = .text ∧
    Reader.text.read "<br />\n".toList = .text ∧ Reader.value.read "<br />\n".toList = .value := by
  repeat rw [String.toList_ofList]
  decide +kernel

theorem read_titleAttribute {title : Option Text} (h : ∀ t ∈ title, '"' ∉ t) :
    Reader.closed.read (titleAttribute title) = .closed := by
  cases title with
  | none => rfl
  | some t =>
    obtain ⟨⟨-, -, htitle⟩, -⟩ := read_linkTexts
    unfold titleAttribute
    dsimp only
    split
    · rfl
    · rw [Reader.read_append, Reader.read_append, htitle, Reader.read_value (h t rfl)]
      rfl

theorem contained_anchor {url label : Text} {title : Option Text} (hurl : '"' ∉ url)
    (htitle : ∀ t ∈ title, '"' ∉ t) (hlabel : Contained label) :
    Contained (anchor url title label) := by
  obtain ⟨⟨hopen, hclose, -⟩, -⟩ := read_linkTexts
  unfold Contained anchor
  simp only [Reader.read_append, Reader.read_cons, hopen, Reader.read_value hurl]
  show (((Reader.closed.read (titleAttribute title)).step '>').read label).read "</a>".toList = .text
  rw [read_titleAttribute htitle]
  show (Reader.text.read label).read "</a>".toList = .text
  rw [hlabel, hclose]

theorem contained_image {source alt : Text} {title : Option Text} (hsource : '"' ∉ source)
    (halt : '"' ∉ alt) (htitle : ∀ t ∈ title, '"' ∉ t) : Contained (image source alt title) := by
  obtain ⟨-, ⟨hopen, hmiddle, hclose⟩, -⟩ := read_linkTexts
  unfold Contained image
  simp only [Reader.read_append, Reader.read_cons, hopen, Reader.read_value hsource, hmiddle,
    Reader.read_value halt]
  show (Reader.closed.read (titleAttribute title)).read " />".toList = .text
  rw [read_titleAttribute htitle, hclose]

theorem contained_footnoteAnchor {id : Text} (hid : '"' ∉ id) (index : Nat) :
    Contained (footnoteAnchor id index) := by
  obtain ⟨-, -, hopen, hmiddle, hclass, hclose⟩ := read_linkTexts
  unfold Contained footnoteAnchor
  simp only [Reader.read_append, hopen, Reader.read_value hid, hmiddle, hclass,
    Reader.read_text (quiet_ofNat index).1, hclose]

theorem contained_colorPreview {color : Text} (h : Quiet color) : Contained (colorPreview color) := by
  obtain ⟨hopen, hmiddle, hclose, -⟩ := read_lineTexts
  unfold Contained colorPreview
  simp only [Reader.read_append, hopen, Reader.read_value h.2, hmiddle, Reader.read_text h.1, hclose]

/-- The double quotes of a target are those of its address, its title and the marks around it. -/
theorem Target.Closing.quote {closing : Text} {title : Option Text}
    (h : Target.Closing title closing) (hquote : '"' ∉ closing) : ∀ t ∈ title, '"' ∉ t := by
  cases h with
  | bare => simp
  | titled =>
    simp only [List.mem_cons, List.mem_append, not_or] at hquote
    simpa using hquote.2.2.2.1

theorem Target.Closing.ends {closing : Text} {title : Option Text}
    (h : Target.Closing title closing) : ∃ t, closing = t ++ [')'] := by
  cases h with
  | bare => exact ⟨[], rfl⟩
  | @titled blank blanks q title q' =>
    exact ⟨blank :: (blanks ++ (q ++ (title ++ q'))), by simp⟩

theorem contained_images {t : Text} (h : Bare t) : Contained (replaceBy imageRule t) := by
  refine replaceBy_of_hits (P := Bare) (Q := Contained) (fun _ => Bare.contained)
    (fun _ _ => Contained.append) ?_ h
  intro before x c r hit hsource _ hrule
  obtain ⟨alt, closing, target, hclosing, htakes, htext, -⟩ := imageRule_eq_some hrule
  rw [htakes.split] at hsource
  obtain ⟨hx, -⟩ := hsource.split (.inl (by decide))
  have hquote := hsource.quote
  simp only [List.mem_cons, List.mem_append, not_or] at hquote
  obtain ⟨-, ⟨-, -, halt, -, -, hurl, hquote⟩, -⟩ := hquote
  obtain ⟨front, rfl⟩ := hclosing.ends
  have hend : x ++ ('!' :: '[' :: (alt ++ ']' :: '(' :: (target.url ++ (front ++ [')']))) ++
      target.rest) = (x ++ ('!' :: '[' :: (alt ++ ']' :: '(' :: (target.url ++ front)))) ++
        ')' :: target.rest := by simp
  rw [hend] at hsource
  rw [htext, htakes.drop]
  exact ⟨hx, contained_image hurl halt (hclosing.quote (by simpa using hquote)),
    (hsource.split (.inl (by decide))).2⟩

end Inline

end Markdown
