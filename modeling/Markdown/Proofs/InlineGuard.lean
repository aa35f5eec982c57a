import Markdown.Proofs.Guarded
import Markdown.Proofs.Hits

/-!
# Inline text is guarded

When sanitizing, every `<` and every `&` in the HTML of an inline text is the first character of a
tag of the rules or of a character reference. Each rule keeps this: it cuts the text only where no
opening can be cut, or at a place that it has looked at, and writes only its own tags. The openings
grow from stage to stage, since the rules for paired marks could cut the tags of links.
-/

namespace Markdown

open Text Html

/-- The character references that are written for the characters with a meaning in HTML. -/
def Html.entities : List Text :=
  ["&amp;".toList, "&lt;".toList, "&gt;".toList, "&quot;".toList, "&#039;".toList]

namespace Inline

/-! ### Openings -/

/-- The two tags of an element. -/
def tagPair (name : Text) : List Text :=
  ['<' :: (name ++ ['>']), '<' :: '/' :: (name ++ ['>'])]

/-- The elements of paired marks and code spans. -/
def spanNames : List Text :=
  ["strong".toList, "em".toList, "del".toList, "mark".toList, "sup".toList, "sub".toList,
    "code".toList]

/-- The tags of links and images, up to the address. -/
def linkTags : List Text :=
  ["<img src=".toList, "<a href=".toList, "</a>".toList]

/-- The tags of colours, up to the colour, and of line breaks. -/
def lineTags : List Text :=
  ["<span class=\"color-preview\">".toList,
    "<span class=\"color-swatch\" style=\"background-color:".toList, "</span>".toList,
    "<br />".toList]

/-- The openings in a text in which paired marks are looked for. -/
def spanOpenings : List Text :=
  entities ++ spanNames.flatMap tagPair

/-- The openings in a text in which links and images are looked for. -/
def linkOpenings : List Text :=
  spanOpenings ++ linkTags

/-- The openings in the HTML of an inline text. -/
def lineOpenings : List Text :=
  linkOpenings ++ lineTags

/-! ### Facts about the openings

The literals are turned into lists of characters by rewriting first, since evaluating them in the
kernel is slow. -/

/-- The characters at which escapes, code spans and paired marks are found. -/
def spanMarks : List Char :=
  ['\\', '\x60', '*', '_', '~', '=', '^']

theorem spanOpenings_facts :
    areCuts spanOpenings spanMarks = true ∧
      (spanNames.flatMap tagPair).all (isGuarded spanOpenings) = true ∧
      entities.all (isGuarded entities) = true := by
  unfold spanOpenings spanNames entities
  repeat rw [String.toList_ofList]
  decide +kernel

theorem cuts_spanOpenings {c : Char} (h : c ∈ spanMarks) : Cuts spanOpenings c :=
  cuts_of_areCuts spanOpenings_facts.1 h

theorem guarded_entities {t : Text} (h : t ∈ entities) : Guarded entities t :=
  guarded_of_isGuarded (List.all_eq_true.mp spanOpenings_facts.2.2 t h)

/-- The characters at which the rules for links and images cut the text. -/
def linkMarks : List Char :=
  ['!', '[', ']', ')', '"', '&', '<']

/-- The texts that the rules for links and images write around what they have read. -/
def linkTexts : List Text :=
  ["<a href=\"".toList, "</a>".toList, "<img src=\"".toList, "\" alt=\"".toList, " />".toList,
    " title=\"".toList, "<a href=\"#fn-".toList, "\" id=\"fnref-".toList,
    "\" class=\"footnote-ref\">[".toList, "]</a>".toList, "mailto:".toList]

/-- In an opening, `#` stands only behind `&`. -/
def hashBehindAmp : Text → Bool
  | [] => true
  | [_] => true
  | b :: d :: r => (d ≠ '#' || b = '&') && hashBehindAmp (d :: r)

theorem linkOpenings_facts :
    areCuts linkOpenings linkMarks = true ∧ linkTexts.all (isGuarded linkOpenings) = true ∧
      linkOpenings.all (fun o => !o.contains '>' || o.head? == some '<') = true ∧
      linkOpenings.all (fun o => !o.dropLast.contains '>') = true ∧
      linkOpenings.all hashBehindAmp = true := by
  unfold linkOpenings spanOpenings spanNames linkTags linkTexts entities
  repeat rw [String.toList_ofList]
  decide +kernel

theorem cuts_linkOpenings {c : Char} (h : c ∈ linkMarks) : Cuts linkOpenings c :=
  cuts_of_areCuts linkOpenings_facts.1 h

theorem guarded_linkTexts {t : Text} (h : t ∈ linkTexts) : Guarded linkOpenings t :=
  guarded_of_isGuarded (List.all_eq_true.mp linkOpenings_facts.2.1 t h)

/-- The texts that the rules for colours and line breaks write. -/
def lineTexts : List Text :=
  ["<span class=\"color-preview\"><span class=\"color-swatch\" style=\"background-color: ".toList,
    "\"></span>".toList, "</span>".toList, "<br />\n".toList]

/-- Behind a blank inside an opening stands neither another blank nor a quote mark. -/
def blankInside : Text → Bool
  | [] => true
  | [b] => !isBlank b
  | b :: d :: r => (!isBlank b || !(isBlank d || d = '"' || d = '&')) && blankInside (d :: r)

theorem lineOpenings_facts :
    lineTexts.all (isGuarded lineOpenings) = true ∧ lineOpenings.all blankInside = true ∧
      areCuts lineOpenings [codeOpen, codeClose] = true ∧
      lineOpenings.all (fun o => o.all fun c => c.toNat < firstStandIn) = true := by
  unfold lineOpenings linkOpenings spanOpenings spanNames linkTags lineTags lineTexts entities
  repeat rw [String.toList_ofList]
  decide +kernel

theorem guarded_lineTexts {t : Text} (h : t ∈ lineTexts) : Guarded lineOpenings t :=
  guarded_of_isGuarded (List.all_eq_true.mp lineOpenings_facts.1 t h)

theorem spanOpenings_subset : spanOpenings ⊆ linkOpenings :=
  List.subset_append_left _ _

theorem linkOpenings_subset : linkOpenings ⊆ lineOpenings :=
  List.subset_append_left _ _

theorem guarded_ofNat {openings : List Text} (n : Nat) : Guarded openings (ofNat n) := by
  refine guarded_of_no_mark fun c hc => ?_
  have hdigit : c.isDigit = true := Nat.isDigit_of_mem_toDigits (by decide) (by decide) hc
  have hne : ∀ d : Char, d.isDigit = false → c ≠ d := by
    rintro d hd rfl
    simp [hd] at hdigit
  simp [isMark, hne '<' (by decide), hne '&' (by decide)]

theorem guarded_element {openings : List Text} {name : String} {t : Text}
    (hname : ∀ tag ∈ tagPair name.toList, Guarded openings tag) (ht : Guarded openings t) :
    Guarded openings (element name t) := by
  have hopen := hname ('<' :: (name.toList ++ ['>'])) (by simp [tagPair])
  have hclose := hname ('<' :: '/' :: (name.toList ++ ['>'])) (by simp [tagPair])
  have hsplit : element name t = '<' :: (name.toList ++ ['>']) ++
      (t ++ '<' :: '/' :: (name.toList ++ ['>'])) := by simp [element]
  rw [hsplit]
  exact hopen.append (ht.append hclose)

/-! ### Escapes -/

/-- Text written for HTML has no other marks than its character references. -/
theorem guarded_escape (t : Text) : Guarded entities (escape t) := by
  refine guarded_flatMap fun c _ => ?_
  unfold escapeChar
  split
  · exact guarded_entities (by simp [entities, -String.reduceToList])
  · exact guarded_entities (by simp [entities, -String.reduceToList])
  · exact guarded_entities (by simp [entities, -String.reduceToList])
  · exact guarded_entities (by simp [entities, -String.reduceToList])
  · exact guarded_entities (by simp [entities, -String.reduceToList])
  · next hamp hlt _ _ _ =>
    exact guarded_of_no_mark fun d hd => by
      obtain rfl := List.mem_singleton.mp hd
      simpa [isMark] using ⟨hlt, hamp⟩

theorem isMark_standIn : ∀ n < escapable.length, isMark (standIn n) = false := by
  decide

theorem guarded_protectEscapes {t : Text} (h : Guarded spanOpenings t) :
    Guarded spanOpenings (protectEscapes t) := by
  refine h.replaceBy_of_cuts (List.Subset.refl _) fun before c r hit hsource hrule => ?_
  obtain ⟨n, s, rest, hs, htakes, htext⟩ := escapeRule_eq_some hrule
  obtain ⟨hn, -⟩ := List.getElem?_eq_some_iff.mp hs
  obtain ⟨rfl, -⟩ := List.cons.inj htakes.split
  refine ⟨cuts_spanOpenings (by decide), ?_⟩
  rw [htext]
  exact .cons (isMark_standIn n hn) guarded_nil

/-! ### Paired marks -/

/-- What a rule writes is guarded, and it begins where no opening is cut. -/
def Guards (rule : Rule) : Prop :=
  ∀ before c r hit, Guarded spanOpenings (c :: r) → rule before c r = some hit →
    Cuts spanOpenings c ∧ Guarded spanOpenings hit.text

theorem guards_longSpan {mark : Text} {words : Bool} {wrap : Text → Text} (hmark : mark ≠ [])
    (hmarks : mark.all spanMarks.contains = true)
    (hwrap : ∀ t, Guarded spanOpenings t → Guarded spanOpenings (wrap t)) :
    Guards (longSpan mark words wrap) := by
  have hcuts : ∀ c ∈ mark, Cuts spanOpenings c := fun c hc =>
    cuts_spanOpenings (List.contains_iff_mem.mp (List.all_eq_true.mp hmarks c hc))
  intro before c r hit hsource hrule
  obtain ⟨inner, rest, htakes, htext, -, -⟩ := longSpan_eq_some hmark hrule
  obtain ⟨d, mark, rfl⟩ := List.exists_cons_of_ne_nil hmark
  rw [htakes.split] at hsource
  obtain ⟨rfl, -⟩ := List.cons.inj htakes.split
  refine ⟨hcuts c (by simp), ?_⟩
  rw [htext]
  simp only [List.append_assoc] at hsource
  exact hwrap _ (hsource.right.before_append hmark hcuts)

theorem guards_shortSpan {s : SpanStyle} {wrap : Text → Text} (hmark : s.mark ∈ spanMarks)
    (hwrap : ∀ t, Guarded spanOpenings t → Guarded spanOpenings (wrap t)) :
    Guards (shortSpan s wrap) := by
  have hcuts := cuts_spanOpenings hmark
  intro before c r hit hsource hrule
  obtain ⟨inner, rest, htakes, htext, -, -⟩ := shortSpan_eq_some hrule
  rw [htakes.split] at hsource
  obtain ⟨rfl, -⟩ := List.cons.inj htakes.split
  refine ⟨hcuts, ?_⟩
  rw [htext]
  rw [List.cons_append, List.append_assoc] at hsource
  exact hwrap _ (hsource.tail.before hcuts)

theorem guarded_applyRules {rules : List Rule} (hrules : ∀ rule ∈ rules, Guards rule) {t : Text}
    (h : Guarded spanOpenings t) : Guarded spanOpenings (applyRules rules t) := by
  induction rules generalizing t with
  | nil => exact h
  | cons rule rules ih =>
    refine ih (fun rule hrule => hrules rule (by simp [hrule])) ?_
    exact h.replaceBy_of_cuts (List.Subset.refl _) (hrules rule (by simp))

theorem guarded_spanElement {name : String} (hname : name.toList ∈ spanNames) {t : Text}
    (ht : Guarded spanOpenings t) : Guarded spanOpenings (element name t) :=
  guarded_element (fun tag htag => guarded_of_isGuarded (List.all_eq_true.mp
    spanOpenings_facts.2.1 tag (List.mem_flatMap.mpr ⟨_, hname, htag⟩))) ht

theorem guards_emphasisRules : ∀ rule ∈ emphasisRules, Guards rule := by
  intro rule hrule
  simp only [emphasisRules, List.mem_cons, List.not_mem_nil, or_false] at hrule
  have hstrong : ∀ t, Guarded spanOpenings t → Guarded spanOpenings (element "strong" t) :=
    fun t ht => guarded_spanElement (by simp [spanNames, -String.reduceToList]) ht
  have hem : ∀ t, Guarded spanOpenings t → Guarded spanOpenings (element "em" t) :=
    fun t ht => guarded_spanElement (by simp [spanNames, -String.reduceToList]) ht
  have hboth : ∀ t, Guarded spanOpenings t →
      Guarded spanOpenings (element "strong" (element "em" t)) := fun t ht => hstrong _ (hem t ht)
  rcases hrule with rfl | rfl | rfl | rfl | rfl | rfl
  · exact guards_longSpan (by decide) (by decide) hboth
  · exact guards_longSpan (by decide) (by decide) hboth
  · exact guards_longSpan (by decide) (by decide) hstrong
  · exact guards_longSpan (by decide) (by decide) hstrong
  · exact guards_shortSpan (by decide) hem
  · exact guards_shortSpan (by decide) hem

theorem guards_decorationRules : ∀ rule ∈ decorationRules, Guards rule := by
  intro rule hrule
  simp only [decorationRules, List.mem_cons, List.not_mem_nil, or_false] at hrule
  have helement : ∀ name : String, name.toList ∈ spanNames → ∀ t, Guarded spanOpenings t →
      Guarded spanOpenings (element name t) := fun name hname t ht => guarded_spanElement hname ht
  rcases hrule with rfl | rfl | rfl | rfl
  · exact guards_longSpan (by decide) (by decide) (helement _ (by simp [spanNames, -String.reduceToList]))
  · exact guards_longSpan (by decide) (by decide) (helement _ (by simp [spanNames, -String.reduceToList]))
  · exact guards_shortSpan (by decide) (helement _ (by simp [spanNames, -String.reduceToList]))
  · exact guards_shortSpan (by decide) (helement _ (by simp [spanNames, -String.reduceToList]))

/-! ### Blanks inside openings -/

theorem blankInside_right {u v : Text} (h : blankInside (u ++ v) = true) : blankInside v = true := by
  induction u with
  | nil => exact h
  | cons b u ih =>
    refine ih ?_
    cases huv : u ++ v with
    | nil => rfl
    | cons d r =>
      rw [List.cons_append, huv, blankInside, Bool.and_eq_true] at h
      exact h.2

/-- No opening is cut in front of a blank with another blank or a quote mark behind it. -/
theorem guarded_before_blank {openings : List Text} (hsub : openings ⊆ lineOpenings) {s t : Text}
    {b d : Char} (h : Guarded openings (s ++ b :: d :: t)) (hb : isBlank b = true)
    (hd : (isBlank d || d = '"' || d = '&') = true) : Guarded openings s := by
  refine h.left fun u v ho _ hv _ hstart => ?_
  have hinside := blankInside_right (List.all_eq_true.mp lineOpenings_facts.2.1 _ (hsub ho))
  obtain ⟨b', v, rfl⟩ := List.exists_cons_of_ne_nil hv
  obtain ⟨rfl, hv'⟩ := List.cons_prefix_cons.mp hstart
  cases v with
  | nil => simp [blankInside, hb] at hinside
  | cons d' v =>
    obtain ⟨rfl, -⟩ := List.cons_prefix_cons.mp hv'
    simp only [blankInside, hb, hd] at hinside
    simp at hinside

/-! ### Links and images -/

theorem IsQuoteMark.ne_nil {q : Text} (h : IsQuoteMark q) : q ≠ [] := by
  rcases h with rfl | rfl <;> simp

theorem IsQuoteMark.cuts {q : Text} (h : IsQuoteMark q) :
    ∃ c r, q = c :: r ∧ Cuts linkOpenings c ∧ (isBlank c || c = '"' || c = '&') = true := by
  rcases h with rfl | rfl
  · exact ⟨'&', "quot;".toList, rfl, cuts_linkOpenings (by decide), by decide⟩
  · exact ⟨'"', [], rfl, cuts_linkOpenings (by decide), by decide⟩

theorem guarded_titleAttribute {title : Text} (h : Guarded linkOpenings title) :
    Guarded linkOpenings (titleAttribute (some title)) := by
  unfold titleAttribute
  dsimp only
  split
  · exact guarded_nil
  · have hname : Guarded linkOpenings " title=\"".toList := guarded_linkTexts (by simp [-String.reduceToList, linkTexts])
    exact (hname.append h).append (.cons (by decide) guarded_nil)

/-- The address and the title of a target. -/
theorem guarded_target {url closing rest : Text} {title : Option Text}
    (h : Guarded linkOpenings (url ++ (closing ++ rest))) (hclosing : Target.Closing title closing) :
    Guarded linkOpenings url ∧ Guarded linkOpenings (titleAttribute title) := by
  cases hclosing with
  | bare => exact ⟨h.before (cuts_linkOpenings (by decide)), guarded_nil⟩
  | @titled b blanks q title q' hb hblanks hq hq' =>
    obtain ⟨c, q, rfl, -, hc⟩ := hq.cuts
    obtain ⟨c', q', rfl, hcuts, -⟩ := hq'.cuts
    simp only [List.append_assoc, List.cons_append] at h
    refine ⟨?_, guarded_titleAttribute (h.right.tail.right.tail.right.before hcuts)⟩
    cases blanks with
    | nil => exact guarded_before_blank linkOpenings_subset h hb hc
    | cons d blanks =>
      exact guarded_before_blank linkOpenings_subset h hb (by simp [hblanks d (by simp)])

theorem guarded_anchor {url label : Text} {title : Option Text} (hurl : Guarded linkOpenings url)
    (htitle : Guarded linkOpenings (titleAttribute title)) (hlabel : Guarded linkOpenings label) :
    Guarded linkOpenings (anchor url title label) := by
  have hhead : Guarded linkOpenings "<a href=\"".toList := guarded_linkTexts (by simp [-String.reduceToList, linkTexts])
  have hend : Guarded linkOpenings "</a>".toList := guarded_linkTexts (by simp [-String.reduceToList, linkTexts])
  exact ((((hhead.append hurl).append (htitle.cons (by decide))).append
    (hlabel.cons (by decide))).append hend)

theorem guarded_image {source alt : Text} {title : Option Text}
    (hsource : Guarded linkOpenings source) (halt : Guarded linkOpenings alt)
    (htitle : Guarded linkOpenings (titleAttribute title)) :
    Guarded linkOpenings (image source alt title) := by
  have hhead : Guarded linkOpenings "<img src=\"".toList := guarded_linkTexts (by simp [-String.reduceToList, linkTexts])
  have halt' : Guarded linkOpenings "\" alt=\"".toList := guarded_linkTexts (by simp [-String.reduceToList, linkTexts])
  have hend : Guarded linkOpenings " />".toList := guarded_linkTexts (by simp [-String.reduceToList, linkTexts])
  exact ((((hhead.append hsource).append halt').append halt).append
    (htitle.cons (by decide))).append hend

theorem guarded_imagesAndLinks {t : Text} (h : Guarded linkOpenings t) :
    Guarded linkOpenings (imagesAndLinks t) := by
  have himages : Guarded linkOpenings (replaceBy imageRule t) := by
    refine h.replaceBy_of_cuts (List.Subset.refl _) fun before c r hit hsource hrule => ?_
    obtain ⟨alt, closing, t, hclosing, htakes, htext, -⟩ := imageRule_eq_some hrule
    rw [htakes.split] at hsource
    obtain ⟨rfl, -⟩ := List.cons.inj htakes.split
    simp only [List.cons_append, List.append_assoc] at hsource
    have halt := hsource.tail.tail.before (cuts_linkOpenings (by decide))
    obtain ⟨hurl, htitle⟩ := guarded_target hsource.tail.tail.right.tail.tail hclosing
    refine ⟨cuts_linkOpenings (by decide), ?_⟩
    rw [htext]
    exact guarded_image hurl halt htitle
  refine himages.replaceBy_of_cuts (List.Subset.refl _) fun before c r hit hsource hrule => ?_
  obtain ⟨label, closing, t, hclosing, htakes, htext, -⟩ := linkRule_eq_some hrule
  rw [htakes.split] at hsource
  obtain ⟨rfl, -⟩ := List.cons.inj htakes.split
  simp only [List.cons_append, List.append_assoc] at hsource
  have hlabel := hsource.tail.before (cuts_linkOpenings (by decide))
  obtain ⟨hurl, htitle⟩ := guarded_target hsource.tail.right.tail.tail hclosing
  refine ⟨cuts_linkOpenings (by decide), ?_⟩
  rw [htext]
  exact guarded_anchor hurl htitle hlabel

/-! ### References and footnotes -/

theorem guarded_escape_link (t : Text) : Guarded linkOpenings (escape t) :=
  (guarded_escape t).mono fun _ ho => spanOpenings_subset (List.mem_append_left _ ho)

theorem guarded_resolve (s : References) (id : Text) {label written : Text}
    (hlabel : Guarded linkOpenings label) (hwritten : Guarded linkOpenings written) :
    Guarded linkOpenings (resolve s true id label written) := by
  unfold resolve
  split
  · next t _ =>
    refine guarded_anchor (guarded_escape_link _) ?_ hlabel
    cases t.title with
    | none => exact guarded_nil
    | some title => exact guarded_titleAttribute (guarded_escape_link title)
  · exact hwritten

theorem guarded_references (s : References) {t : Text} (h : Guarded linkOpenings t) :
    Guarded linkOpenings (references s true t) := by
  have hfull : Guarded linkOpenings (replaceBy (fullReferenceRule s true) t) := by
    refine h.replaceBy_of_cuts (List.Subset.refl _) fun before c r hit hsource hrule => ?_
    obtain ⟨label, id, rest, htakes, htext, -⟩ := fullReferenceRule_eq_some hrule
    rw [htakes.split] at hsource
    obtain ⟨rfl, -⟩ := List.cons.inj htakes.split
    simp only [List.cons_append, List.append_assoc, List.nil_append] at hsource
    have hlabel := hsource.tail.before (cuts_linkOpenings (by decide))
    have hid := hsource.tail.right.tail.tail.before (cuts_linkOpenings (by decide))
    refine ⟨cuts_linkOpenings (by decide), ?_⟩
    rw [htext]
    refine guarded_resolve s _ hlabel (.cons (by decide) (hlabel.append ?_))
    exact .cons (by decide) (.cons (by decide) (hid.append (.cons (by decide) guarded_nil)))
  refine hfull.replaceBy_of_cuts (List.Subset.refl _) fun before c r hit hsource hrule => ?_
  obtain ⟨label, rest, htakes, htext, -⟩ := shortcutRule_eq_some hrule
  rw [htakes.split] at hsource
  obtain ⟨rfl, -⟩ := List.cons.inj htakes.split
  simp only [List.cons_append, List.append_assoc, List.nil_append] at hsource
  have hlabel := hsource.tail.before (cuts_linkOpenings (by decide))
  refine ⟨cuts_linkOpenings (by decide), ?_⟩
  rw [htext]
  exact guarded_resolve s _ hlabel (.cons (by decide) (hlabel.append (.cons (by decide) guarded_nil)))

theorem guarded_footnoteAnchor {id : Text} (index : Nat) (hid : Guarded linkOpenings id) :
    Guarded linkOpenings (footnoteAnchor id index) := by
  have hhead : Guarded linkOpenings "<a href=\"#fn-".toList := guarded_linkTexts (by simp [-String.reduceToList, linkTexts])
  have hname : Guarded linkOpenings "\" id=\"fnref-".toList := guarded_linkTexts (by simp [-String.reduceToList, linkTexts])
  have hclass : Guarded linkOpenings "\" class=\"footnote-ref\">[".toList := guarded_linkTexts (by simp [-String.reduceToList, linkTexts])
  exact ((((hhead.append hid).append hname).append hid).append hclass).append
    (guarded_ofNat index) |>.append (guarded_linkTexts (by simp [-String.reduceToList, linkTexts]))

theorem guarded_footnotes (s : References) {t : Text} (h : Guarded linkOpenings t) :
    Guarded linkOpenings (footnotes s t) := by
  refine h.replaceBy_of_cuts (List.Subset.refl _) fun before c r hit hsource hrule => ?_
  obtain ⟨id, rest, htakes, -, htext⟩ := footnoteRule_eq_some hrule
  rw [htakes.split] at hsource
  obtain ⟨rfl, -⟩ := List.cons.inj htakes.split
  simp only [List.cons_append, List.append_assoc, List.nil_append] at hsource
  have hid := hsource.tail.tail.before (cuts_linkOpenings (by decide))
  refine ⟨cuts_linkOpenings (by decide), ?_⟩
  rcases htext with htext | ⟨f, -, htext⟩ <;> rw [htext]
  · exact .cons (by decide) (.cons (by decide) (hid.append (.cons (by decide) guarded_nil)))
  · exact guarded_footnoteAnchor f.index hid

/-! ### Addresses in angle brackets -/

theorem IsClose.isMark_or {b : Text} (h : IsClose b) : ∃ c r, b = c :: r ∧ (c = '&' ∨ c = '>') := by
  rcases h with rfl | rfl
  · exact ⟨'&', "gt;".toList, rfl, .inl rfl⟩
  · exact ⟨'>', [], rfl, .inr rfl⟩

/-- An address up to the closing bracket; it has no `<` inside. -/
theorem guarded_address {url b rest : Text} (h : Guarded linkOpenings (url ++ (b ++ rest)))
    (hb : IsClose b) (hurl : '<' ∉ url) : Guarded linkOpenings url := by
  obtain ⟨c, b, rfl, hc⟩ := hb.isMark_or
  rcases hc with rfl | rfl
  · exact h.before (cuts_linkOpenings (by decide))
  · refine h.left fun u v ho hu hv hsuffix hstart => hurl (hsuffix.subset ?_)
    obtain ⟨d, v, rfl⟩ := List.exists_cons_of_ne_nil hv
    obtain ⟨rfl, -⟩ := List.cons_prefix_cons.mp hstart
    obtain ⟨e, u, rfl⟩ := List.exists_cons_of_ne_nil hu
    have hhead := List.all_eq_true.mp linkOpenings_facts.2.2.1 _ ho
    obtain rfl : e = '<' := by simpa using hhead
    simp

theorem IsOpen.cuts {b : Text} (h : IsOpen b) : ∃ c r, b = c :: r ∧ Cuts linkOpenings c := by
  rcases h with rfl | rfl
  · exact ⟨'&', "lt;".toList, rfl, cuts_linkOpenings (by decide)⟩
  · exact ⟨'<', [], rfl, cuts_linkOpenings (by decide)⟩

theorem guarded_mailPart {t : Text} (h : ∀ d ∈ t, isMailChar d = true) : Guarded linkOpenings t := by
  refine guarded_of_no_mark fun d hd => ?_
  have hmail := h d hd
  simp only [isMailChar, Bool.and_eq_true, decide_eq_true_eq] at hmail
  simp [isMark, hmail.1.1.1.2, hmail.1.2]

theorem guarded_autolinks {t : Text} (h : Guarded linkOpenings t) :
    Guarded linkOpenings (autolinks t) := by
  have hurls : Guarded linkOpenings (replaceBy urlRule t) := by
    refine h.replaceBy_of_cuts (List.Subset.refl _) fun before c r hit hsource hrule => ?_
    obtain ⟨o, scheme, body, b, rest, ho, hb, hscheme, htakes, htext, -, hbody⟩ :=
      urlRule_eq_some hrule
    obtain ⟨d, o, rfl, hcuts⟩ := ho.cuts
    rw [htakes.split] at hsource
    obtain ⟨rfl, -⟩ := List.cons.inj htakes.split
    simp only [List.append_assoc] at hsource
    have haddress := hsource.right
    rw [← List.append_assoc] at haddress
    have hurl := guarded_address haddress hb (not_mem_address hscheme hbody)
    refine ⟨hcuts, ?_⟩
    rw [htext]
    exact guarded_anchor hurl guarded_nil hurl
  refine hurls.replaceBy_of_cuts (List.Subset.refl _) fun before c r hit hsource hrule => ?_
  obtain ⟨o, user, domain, b, rest, ho, -, htakes, htext, -, huser, hdomain⟩ :=
    mailRule_eq_some hrule
  obtain ⟨d, o, rfl, hcuts⟩ := ho.cuts
  obtain ⟨rfl, -⟩ := List.cons.inj htakes.split
  have haddress : Guarded linkOpenings (user ++ '@' :: domain) :=
    (guarded_mailPart huser).append ((guarded_mailPart hdomain).cons (by decide))
  refine ⟨hcuts, ?_⟩
  rw [htext]
  have hscheme : Guarded linkOpenings "mailto:".toList := guarded_linkTexts (by simp [-String.reduceToList, linkTexts])
  exact guarded_anchor (hscheme.append haddress) guarded_nil haddress

/-! ### Colours and line breaks -/

theorem hashBehindAmp_append {u v : Text} (hu : u ≠ []) (h : hashBehindAmp (u ++ '#' :: v) = true) :
    u.getLast? = some '&' := by
  induction u with
  | nil => exact absurd rfl hu
  | cons b u ih =>
    cases u with
    | nil =>
      simp only [List.cons_append, List.nil_append, hashBehindAmp, Bool.and_eq_true] at h
      simpa using h.1
    | cons d u =>
      simp only [List.cons_append, hashBehindAmp, Bool.and_eq_true] at h
      rw [List.getLast?_cons_cons]
      exact ih (by simp) h.2

/-- No opening is cut in front of a colour. -/
theorem guarded_before_color {openings : List Text} (hhash : openings.all hashBehindAmp = true)
    {before : Option Char} {s t : Text} (h : Guarded openings (s ++ '#' :: t))
    (hbefore : s ≠ [] → before = s.getLast?) (hafter : colorAfter before = true) :
    Guarded openings s := by
  refine h.left fun u v ho hu hv hsuffix hstart => ?_
  obtain ⟨d, v, rfl⟩ := List.exists_cons_of_ne_nil hv
  obtain ⟨rfl, -⟩ := List.cons_prefix_cons.mp hstart
  have hlast := hashBehindAmp_append hu (List.all_eq_true.mp hhash _ ho)
  obtain ⟨x, rfl⟩ := hsuffix
  rw [hbefore (by simp [hu]), List.getLast?_append, hlast] at hafter
  simp [colorAfter] at hafter

theorem guarded_color {openings : List Text} {digits : Text}
    (h : ∀ d ∈ digits, isHexDigit d = true) : Guarded openings ('#' :: digits) := by
  refine guarded_of_no_mark fun d hd => ?_
  rcases List.mem_cons.mp hd with rfl | hd
  · decide
  · have hhex := h d hd
    have hne : ∀ e : Char, isHexDigit e = false → d ≠ e := by
      rintro e he rfl
      simp [he] at hhex
    simp [isMark, hne '<' (by decide), hne '&' (by decide)]

theorem guarded_colorPreview {digits : Text} (h : ∀ d ∈ digits, isHexDigit d = true) :
    Guarded lineOpenings (colorPreview ('#' :: digits)) := by
  have hcolor : Guarded lineOpenings ('#' :: digits) := guarded_color h
  have hhead : Guarded lineOpenings
      "<span class=\"color-preview\"><span class=\"color-swatch\" style=\"background-color: ".toList :=
    guarded_lineTexts (by simp [-String.reduceToList, lineTexts])
  have hmiddle : Guarded lineOpenings "\"></span>".toList := guarded_lineTexts (by simp [-String.reduceToList, lineTexts])
  have hend : Guarded lineOpenings "</span>".toList := guarded_lineTexts (by simp [-String.reduceToList, lineTexts])
  exact (((hhead.append hcolor).append hmiddle).append hcolor).append hend

theorem guarded_colorPreviews {t : Text} (h : Guarded linkOpenings t) :
    Guarded lineOpenings (colorPreviews t) := by
  refine guarded_flatMap fun p hp => ?_
  obtain ⟨-, -, -, hends, hhash⟩ := linkOpenings_facts
  have hpart := h.of_mem_parts (cuts_linkOpenings (by decide)) hends hp
  split
  · exact hpart.mono linkOpenings_subset
  · dsimp only
    split
    · exact hpart.mono linkOpenings_subset
    · refine hpart.replaceBy linkOpenings_subset fun before x c r hit hsource hbefore hrule => ?_
      obtain ⟨digits, rest, hafter, htakes, htext, -, hdigits⟩ := colorRule_eq_some hrule
      obtain ⟨rfl, -⟩ := List.cons.inj htakes.split
      rw [htext]
      exact ⟨guarded_before_color hhash hsource hbefore hafter, guarded_colorPreview hdigits⟩

theorem guarded_hardBreaks {t : Text} (h : Guarded lineOpenings t) :
    Guarded lineOpenings (hardBreaks t) := by
  refine h.replaceBy (List.Subset.refl _) fun before x c r hit hsource _ hrule => ?_
  obtain ⟨spaces, rest, htakes, htext, hne, hspaces⟩ := hardBreakRule_eq_some hrule
  obtain ⟨d, spaces, rfl⟩ := List.exists_cons_of_ne_nil hne
  obtain rfl := hspaces d (by simp)
  rw [htakes.split] at hsource
  refine ⟨guarded_before_blank (List.Subset.refl _) hsource (by decide) (by decide), ?_⟩
  rw [htext]
  exact guarded_lineTexts (by simp [-String.reduceToList, lineTexts])

theorem guarded_markUp (s : References) {t : Text} (h : Guarded spanOpenings t) :
    Guarded lineOpenings (markUp s true t) := by
  have hemphasis : Guarded spanOpenings (emphasis t) := guarded_applyRules guards_emphasisRules h
  have hspans : Guarded spanOpenings (decorations (emphasis t)) :=
    guarded_applyRules guards_decorationRules hemphasis
  have hlinks := guarded_imagesAndLinks (hspans.mono spanOpenings_subset)
  have hfootnotes := guarded_footnotes s (guarded_autolinks (guarded_references s hlinks))
  exact guarded_hardBreaks (guarded_colorPreviews hfootnotes)

/-! ### Code spans and stand-ins -/

theorem guarded_protectCode {t : Text} (h : Guarded spanOpenings t) :
    Guarded spanOpenings (protectCode [] t).1 ∧
      ∀ s ∈ (protectCode [] t).2, Guarded spanOpenings s := by
  have hmark : ∀ n, Guarded spanOpenings (codeMark n) := fun n =>
    .cons (by decide) ((guarded_ofNat n).append (.cons (by decide) guarded_nil))
  obtain ⟨htext, hstash⟩ := stashSpans_of_hits (fun _ => id) (fun _ _ => Guarded.append) hmark
    (fun x body rest hsource _ =>
      ⟨hsource.before (cuts_spanOpenings (by decide)),
        hsource.right.tail.before (cuts_spanOpenings (by decide)),
        hsource.right.tail.right.tail⟩) 0 [] t h
  refine ⟨htext, fun s hs => ?_⟩
  obtain ⟨body, hbody, rfl⟩ := hstash s hs
  exact guarded_spanElement (by simp [spanNames, -String.reduceToList]) hbody

theorem guarded_restoreCode {stash : Stash} (hstash : ∀ s ∈ stash, Guarded lineOpenings s)
    {t : Text} (h : Guarded lineOpenings t) : Guarded lineOpenings (restoreCode stash t).value := by
  rw [value_restoreCode]
  split
  · exact h
  · have hopen : Cuts lineOpenings codeOpen := cuts_of_areCuts lineOpenings_facts.2.2.1 (by simp)
    have hclose : Cuts lineOpenings codeClose := cuts_of_areCuts lineOpenings_facts.2.2.1 (by simp)
    refine h.replaceBy_of_cuts (List.Subset.refl _) fun before c r hit hsource hrule => ?_
    obtain ⟨digits, rest, htakes, -, htext⟩ := restoreRule_eq_some hrule
    rw [htakes.split] at hsource
    obtain ⟨rfl, -⟩ := List.cons.inj htakes.split
    simp only [List.cons_append, List.append_assoc] at hsource
    refine ⟨hopen, ?_⟩
    rcases htext with htext | hmem
    · rw [htext]
      exact .cons (by decide) ((hsource.tail.before hclose).append (.cons (by decide) guarded_nil))
    · exact hstash _ hmem

theorem guarded_of_standsFor? {c : Char} {s : Text} (h : standsFor? c = some s) :
    Guarded entities s := by
  have hescapable : escapable.all (isGuarded ["&gt;".toList]) = true := by
    unfold escapable
    repeat rw [String.toList_ofList]
    decide
  unfold standsFor? at h
  split at h
  · refine (guarded_of_isGuarded (List.all_eq_true.mp hescapable s (List.mem_of_getElem? h))).mono ?_
    simp [entities, -String.reduceToList]
  · cases h

theorem guarded_revertEscapes {t : Text} (h : Guarded lineOpenings t) :
    Guarded lineOpenings (revertEscapes t) := by
  refine h.flatMap (fun o ho c hc => ?_) fun c => ?_
  · have hlt := List.all_eq_true.mp (List.all_eq_true.mp lineOpenings_facts.2.2.2 o ho) c hc
    have hnone : standsFor? c = none := if_neg (by simpa using hlt)
    rw [hnone]
    rfl
  · cases hc : standsFor? c with
    | none => exact .inl rfl
    | some s =>
      refine .inr ((guarded_of_standsFor? hc).mono fun o ho => ?_)
      exact linkOpenings_subset (spanOpenings_subset (List.mem_append_left _ ho))

/-- Every mark in the HTML of an inline text belongs to a tag of the rules or to a reference. -/
theorem guarded_render (s : References) (t : Text) :
    Guarded lineOpenings (render s true t).value := by
  have hsource : Guarded spanOpenings (protectEscapes (escape t)) :=
    guarded_protectEscapes ((guarded_escape t).mono (List.subset_append_left _ _))
  obtain ⟨hshielded, hstash⟩ := guarded_protectCode hsource
  have hsub : spanOpenings ⊆ lineOpenings := fun o ho => linkOpenings_subset (spanOpenings_subset ho)
  rw [value_render, if_pos rfl]
  refine guarded_revertEscapes ?_
  exact guarded_restoreCode (fun s hs => (hstash s hs).mono hsub) (guarded_markUp s hshielded)

end Inline

end Markdown
