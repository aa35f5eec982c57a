import Markdown.Proofs.DefinitionForms
import Markdown.Proofs.FootnoteLinks

/-!
# References to defined links

A document keeps the identifier of a link as it is written, in lower case. When sanitizing, a reference
is looked up by the written form of its identifier for HTML. So a reference is found if HTML reserves no
character of its identifier; with such a character it stays as it is written, although the link is
defined under the same identifier (`reference_shows_anchor_iff`).
-/

namespace Markdown.Links

open Text Inline Canonical Footnotes

variable {s : References} {t w id url : Text}

/-! ### The document -/

/-- A character of the addresses considered here. -/
def isUrlText (c : Char) : Bool :=
  isAsciiLetter c || isAsciiDigit c || c ∈ ":/.-".toList

theorem isPrintable_of_isUrlText {c : Char} (h : isUrlText c = true) : isPrintable c = true := by
  have hmarks : ∀ d ∈ ":/.-".toList, isPrintable d = true := forall_mem_of_all (by decide)
  rcases Bool.or_eq_true_iff.mp h with htext | hmark
  · exact isPrintable_of_isTextChar (by rw [isTextChar, htext, Bool.true_or])
  · exact hmarks c (of_decide_eq_true hmark)

/-- The definition of a link. -/
def linkLine (id url : Text) : Text :=
  '[' :: (id ++ ']' :: ':' :: ' ' :: url)

/-- A reference behind a word. -/
def reference (id : Text) : Text :=
  "See [".toList ++ (id ++ [']'])

/-- The definition of a link, and a paragraph with a reference to it. -/
def linkDocument (id url : Text) : Text :=
  unlines [linkLine id url, [], reference id]

/-- The definitions of this document. -/
def linkReferences (id url : Text) : References :=
  References.empty.setLink id url none

/-! ### Looking the reference up -/

theorem link?_linkReferences (id url w : Text) :
    (linkReferences id url).link? w = if lower w = lower id then some ⟨url, none⟩ else none := by
  by_cases hw : lower w = lower id
  · simp [linkReferences, References.link?, References.find?, References.setLink, References.put,
      References.empty, hw]
  · simp [linkReferences, References.link?, References.find?, References.setLink, References.put,
      References.empty, hw, Ne.symm hw]

theorem isAscii_of_isIdChar {c : Char} (h : isIdChar c = true) : c.toNat < 0x80 :=
  isAscii_of_isPrintable (isPrintable_of_isIdChar h)

/-- The written form of an identifier is another key as soon as a character is reserved. -/
theorem lower_escape_eq_iff (hid : ∀ c ∈ id, isIdChar c = true) :
    lower (Html.escape id) = lower id ↔ ∀ c ∈ id, Html.isReserved c = false := by
  have hascii : ∀ c ∈ id, c.toNat < 0x80 := fun c hc => isAscii_of_isIdChar (hid c hc)
  have hwritten : ∀ c ∈ Html.escape id, c.toNat < 0x80 :=
    Html.forall_mem_escape (forall_mem_of_all (by decide)) hascii
  constructor
  · intro h
    have hlength := congrArg List.length h
    rw [lower_of_isAscii hascii, lower_of_isAscii hwritten, List.length_map, List.length_map] at hlength
    exact Html.length_escape_eq_iff.mp hlength
  · exact fun h => by rw [Html.escape_eq_self_iff.mpr h]

/-! ### The rules in front of the references -/

/-- A character of the paragraph when it is written for HTML. -/
def isWrittenChar (c : Char) : Bool :=
  isTextChar c || c ∈ "[]&;#".toList

theorem isPrintable_of_isWrittenChar {c : Char} (h : isWrittenChar c = true) : isPrintable c = true := by
  have hmarks : ∀ d ∈ "[]&;#".toList, isPrintable d = true := forall_mem_of_all (by decide)
  rcases Bool.or_eq_true_iff.mp h with htext | hmark
  · exact isPrintable_of_isTextChar htext
  · exact hmarks c (of_decide_eq_true hmark)

theorem isWrittenChar_of_isIdChar {c : Char} (hc : isIdChar c = true) :
    ∀ d ∈ Html.escapeChar c, isWrittenChar d = true := by
  rcases Bool.or_eq_true_iff.mp hc with htext | hreserved
  · rw [escapeChar_of_isTextChar htext]
    intro d hd
    rw [List.mem_singleton.mp hd, isWrittenChar, htext, Bool.true_or]
  · rcases Html.eq_or_of_isReserved hreserved with rfl | rfl | rfl | rfl | rfl <;>
      exact List.all_eq_true.mp (by decide)

theorem isWrittenChar_of_mem (hid : ∀ c ∈ id, isIdChar c = true) :
    ∀ c ∈ reference (Html.escape id), isWrittenChar c = true := by
  have hescape : ∀ d ∈ Html.escape id, isWrittenChar d = true := by
    intro d hd
    obtain ⟨c, hc, hd⟩ := List.mem_flatMap.mp hd
    exact isWrittenChar_of_isIdChar (hid c hc) d hd
  rw [reference, List.forall_mem_append, List.forall_mem_append]
  exact ⟨List.all_eq_true.mp (by decide), hescape, List.all_eq_true.mp (by decide)⟩

/-- A reference with an identifier in a second pair of brackets needs two opening ones. -/
theorem fullReferenceRule_reference (s : References) (sanitize : Bool) (h : '[' ∉ w) :
    replaceBy (fullReferenceRule s sanitize) (reference w) = reference w := by
  refine replaceBy_eq_self fun before x c r hit hsplit _ hhit => ?_
  obtain ⟨label, id, rest, htakes, -⟩ := fullReferenceRule_eq_some hhit
  have hcount : (reference w).count '[' = 1 := by
    simp [reference, List.count_eq_zero_of_not_mem h]
  rw [hsplit, htakes.split] at hcount
  simp at hcount
  omega

theorem shortcutRule_reference (s : References) (sanitize : Bool) (hne : w ≠ []) (hopen : '[' ∉ w)
    (hclose : ']' ∉ w) (hcaret : '^' ∉ w) :
    replaceBy (shortcutRule s sanitize) (reference w) =
      "See ".toList ++ resolve s sanitize w w ('[' :: (w ++ [']'])) := by
  have hbracket : Inline.bracketed? (w ++ [']']) = some (w, []) := cutAt?_append [] hclose
  obtain ⟨d, u, rfl⟩ := List.exists_cons_of_ne_nil hne
  have hd : d ≠ '^' := (List.ne_of_not_mem_cons hcaret).symm
  have hrule : shortcutRule s sanitize (some ' ') '[' (d :: u ++ [']']) =
      some ⟨(d :: u ++ [']']).length, resolve s sanitize (d :: u) (d :: u) ('[' :: (d :: u ++ [']']))⟩ := by
    rw [shortcutRule, if_pos (by decide), hbracket]
    simp [hd, hitUpTo]
  have hword : ∀ c, c ≠ '[' → (shortcutRule s sanitize).PassesOver c := fun c hc before r => by
    rw [shortcutRule, if_neg (by simp [hc])]
  show replaceFrom (shortcutRule s sanitize) none ('S' :: 'e' :: 'e' :: ' ' :: '[' :: (d :: u ++ [']'])) = _
  rw [replaceFrom_cons_none (hword 'S' (by decide) _ _),
    replaceFrom_cons_none (hword 'e' (by decide) _ _), replaceFrom_cons_none (hword 'e' (by decide) _ _),
    replaceFrom_cons_none (hword ' ' (by decide) _ _), replaceFrom_cons_some hrule, List.drop_length,
    replaceFrom_nil, List.append_nil]
  rfl

/-- What the rules behind the references get to read. -/
theorem markUp_reference (s : References) {sanitize : Bool}
    (hw : ∀ c ∈ reference w, isWrittenChar c = true) (hne : w ≠ [])
    (hopen : '[' ∉ w) (hclose : ']' ∉ w) :
    markUp s sanitize (reference w) = hardBreaks (colorPreviews (footnotes s (autolinks
      ("See ".toList ++ resolve s sanitize w w ('[' :: (w ++ [']'])))))) := by
  have hcaret : '^' ∉ w := fun hmem =>
    ne_of_class (hw '^' (by simp [reference, hmem])) (d := '^') rfl rfl
  have hdecorations : decorations (reference w) = reference w := by
    apply applyRules_eq_self
    simp only [decorationRules, List.forall_mem_cons]
    exact ⟨(idle_longSpan _ _ ⟨'~', by decide, rfl⟩).replaceBy hw,
      (idle_longSpan _ _ ⟨'=', by decide, rfl⟩).replaceBy hw, (idle_shortSpan _ _ rfl).replaceBy hw,
      (idle_shortSpan _ _ rfl).replaceBy hw, by simp⟩
  rw [markUp, emphasis_eq_self (by decide) (by decide) hw, hdecorations, imagesAndLinks,
    (idle_imageRule ⟨'!', by decide, rfl⟩).replaceBy hw,
    (idle_linkRule ⟨'(', by decide, rfl⟩).replaceBy hw, references,
    fullReferenceRule_reference s sanitize hopen,
    shortcutRule_reference s sanitize hne hopen hclose hcaret]

/-! ### A reference that is not found -/

/-- It stays as it is written, since the other rules find nothing in it. -/
theorem markUp_of_not_found (hid : ∀ c ∈ id, isIdChar c = true)
    (h : s.link? (Html.escape id) = none) (hne : id ≠ []) :
    markUp s true (reference (Html.escape id)) = reference (Html.escape id) := by
  have hw := isWrittenChar_of_mem hid
  have hresolve : resolve s true (Html.escape id) (Html.escape id) ('[' :: (Html.escape id ++ [']'])) =
      '[' :: (Html.escape id ++ [']']) := by
    rw [resolve, h]
  have htag : '<' ∉ reference (Html.escape id) := fun hmem => ne_of_class (hw _ hmem) (d := '<') rfl rfl
  have hhash : hashBehindAmp (' ' :: reference (Html.escape id)) = true := by
    simp [reference, hashBehindAmp, hashBehindAmp_escape hid]
  rw [markUp_reference s hw (Html.escape_ne_nil hne) (notMem_escape_of_isIdChar hid (by decide) rfl)
    (notMem_escape_of_isIdChar hid (by decide) rfl), hresolve]
  show hardBreaks (colorPreviews (footnotes s (autolinks (reference (Html.escape id))))) = _
  rw [autolinks, (idle_urlRule (by decide)).replaceBy hw, (idle_mailRule (by decide)).replaceBy hw,
    footnotes, (idle_footnoteRule s ⟨'^', by decide, rfl⟩).replaceBy hw, colorPreviews_of_no_tag htag,
    colorRule_of_hashBehindAmp hhash, hardBreaks, (idle_hardBreakRule (by decide)).replaceBy hw]

/-! ### A reference that is found -/

/-- A character of the anchor and of the word in front of it. -/
def isAnchorChar (c : Char) : Bool :=
  isTextChar c || isUrlText c || c ∈ "<=\"/>".toList

theorem isPrintable_of_isAnchorChar {c : Char} (h : isAnchorChar c = true) : isPrintable c = true := by
  have hmarks : ∀ d ∈ "<=\"/>".toList, isPrintable d = true := forall_mem_of_all (by decide)
  rcases Bool.or_eq_true_iff.mp h with h | hmark
  · rcases Bool.or_eq_true_iff.mp h with htext | hurl
    · exact isPrintable_of_isTextChar htext
    · exact isPrintable_of_isUrlText hurl
  · exact hmarks c (of_decide_eq_true hmark)

/-- What stands between the brackets of the opening tag. -/
def linkTag (url : Text) : Text :=
  "a href=\"".toList ++ (url ++ ['"'])

theorem anchor_eq (url id : Text) :
    anchor url none id = '<' :: (linkTag url ++ ['>']) ++ (id ++ ("</a>".toList ++ [])) := by
  have hsplit : ∀ a e : Text, '<' :: a ++ url ++ ['"'] ++ '>' :: id ++ e =
      '<' :: (a ++ (url ++ ['"']) ++ ['>']) ++ (id ++ (e ++ [])) := by
    simp
  exact hsplit "a href=\"".toList "</a>".toList

/-- The rule for addresses needs a scheme behind the bracket of a tag. -/
theorem urlRule_of_tags {x u v : Text} (h : ∀ c ∈ x ++ (u ++ v), c ≠ '<' ∧ c ≠ '&') :
    replaceBy urlRule (x ++ '<' :: 'a' :: (u ++ '<' :: '/' :: v)) =
      x ++ '<' :: 'a' :: (u ++ '<' :: '/' :: v) := by
  have hpasses : ∀ c, c ≠ '<' ∧ c ≠ '&' → urlRule.PassesOver c := by
    intro c hc before r
    by_contra hhit
    obtain ⟨hit, hhit⟩ := Option.ne_none_iff_exists'.mp hhit
    obtain ⟨o, scheme, body, b, rest, ho, -, -, htakes, -⟩ := urlRule_eq_some hhit
    have hsplit := htakes.split
    rcases ho with rfl | rfl
    · exact hc.2 (List.cons.inj hsplit).1
    · exact hc.1 (List.cons.inj hsplit).1
  simp only [List.forall_mem_append] at h
  obtain ⟨hx, hu, hv⟩ := h
  have ha : urlRule.PassesOver 'a' := hpasses 'a' (by decide)
  have hslash : urlRule.PassesOver '/' := hpasses '/' (by decide)
  obtain ⟨first, hfirst⟩ := @replaceFrom_of_passesOver urlRule none x fun c hc => hpasses c (hx c hc)
  obtain ⟨second, hsecond⟩ := @replaceFrom_of_passesOver urlRule (some 'a') u fun c hc => hpasses c (hu c hc)
  obtain ⟨third, hthird⟩ := @replaceFrom_of_passesOver urlRule (some '/') v fun c hc => hpasses c (hv c hc)
  have hend : replaceFrom urlRule (some '/') v = v := by
    have hlast := hthird []
    rwa [List.append_nil, replaceFrom_nil, List.append_nil] at hlast
  rw [replaceBy_eq_replaceFrom, hfirst, replaceFrom_cons_none rfl, replaceFrom_cons_none (ha _ _), hsecond,
    replaceFrom_cons_none rfl, replaceFrom_cons_none (hslash _ _), hend]

section Found

variable (hid : ∀ c ∈ id, isTextChar c = true) (hurl : ∀ c ∈ url, isUrlText c = true)

include hid hurl

theorem isAnchorChar_of_mem : ∀ c ∈ "See ".toList ++ anchor url none id, isAnchorChar c = true := by
  have hfixed : ∀ s : Text, s.all isAnchorChar = true → ∀ c ∈ s, isAnchorChar c = true :=
    fun s => List.all_eq_true.mp
  have hidchars : ∀ c ∈ id, isAnchorChar c = true := fun c hc => by simp [isAnchorChar, hid c hc]
  have hurlchars : ∀ c ∈ url, isAnchorChar c = true := fun c hc => by simp [isAnchorChar, hurl c hc]
  have hjoin : ∀ {s t : Text}, (∀ c ∈ s, isAnchorChar c = true) → (∀ c ∈ t, isAnchorChar c = true) →
      ∀ c ∈ s ++ t, isAnchorChar c = true := fun hs ht => List.forall_mem_append.mpr ⟨hs, ht⟩
  have hlabel : ∀ c ∈ '>' :: id, isAnchorChar c = true := List.forall_mem_cons.mpr ⟨by decide, hidchars⟩
  exact hjoin (hfixed _ (by decide)) (hjoin (hjoin (hjoin (hjoin (hfixed _ (by decide)) hurlchars)
    (hfixed ['"'] (by decide))) hlabel) (hfixed _ (by decide)))

/-- An address in the anchor stands in a tag, and neither of its tags begins an address in angle
brackets. -/
theorem autolinks_anchor :
    autolinks ("See ".toList ++ anchor url none id) = "See ".toList ++ anchor url none id := by
  have hplain : ∀ c, isTextChar c = true ∨ isUrlText c = true → c ≠ '<' ∧ c ≠ '&' := by
    rintro c (hc | hc) <;> exact ⟨ne_of_class hc rfl, ne_of_class hc rfl⟩
  have hsplit : ∀ a : Text, '<' :: 'a' :: a ++ url ++ ['"'] ++ '>' :: id ++ ['<', '/', 'a', '>'] =
      '<' :: 'a' :: (a ++ (url ++ '"' :: '>' :: id) ++ '<' :: '/' :: ['a', '>']) := by
    simp
  have hanchor : anchor url none id = '<' :: 'a' ::
      (" href=\"".toList ++ (url ++ '"' :: '>' :: id) ++ '<' :: '/' :: ['a', '>']) :=
    hsplit " href=\"".toList
  have hurls : replaceBy urlRule ("See ".toList ++ anchor url none id) =
      "See ".toList ++ anchor url none id := by
    rw [hanchor]
    refine urlRule_of_tags (List.forall_mem_append.mpr ⟨forall_mem_of_all (by decide),
      List.forall_mem_append.mpr ⟨List.forall_mem_append.mpr ⟨forall_mem_of_all (by decide), ?_⟩,
        forall_mem_of_all (by decide)⟩⟩)
    simp only [List.forall_mem_append, List.forall_mem_cons]
    exact ⟨fun c hc => hplain c (.inr (hurl c hc)), by decide, by decide,
      fun c hc => hplain c (.inl (hid c hc))⟩
  rw [autolinks, hurls]
  exact (idle_mailRule (p := isAnchorChar) (by decide)).replaceBy (isAnchorChar_of_mem hid hurl)

theorem colorPreviews_anchor :
    colorPreviews ("See ".toList ++ anchor url none id) = "See ".toList ++ anchor url none id := by
  have hno : ∀ d, isTextChar d = false → d ∉ id := fun d hd hmem => ne_of_class (hid d hmem) hd rfl
  have hopening : Html.IsTag ('<' :: (linkTag url ++ ['>'])) := by
    have hfixed : '>' ∉ "a href=\"".toList := by decide
    refine ⟨_, rfl, fun hmem => ?_⟩
    rcases List.mem_append.mp hmem with hmem | hmem
    · exact hfixed hmem
    · rcases List.mem_append.mp hmem with hmem | hmem
      · exact ne_of_class (hurl _ hmem) (d := '>') rfl rfl
      · exact absurd hmem (by decide)
  have hclosing : Html.IsTag "</a>".toList := ⟨"/a".toList, by decide, by decide⟩
  rw [anchor_eq, colorPreviews_text (by decide) (by decide) hopening,
    colorPreviews_text (hno _ rfl) (hno _ rfl) hclosing, colorPreviews_nil]

end Found

/-- It becomes an anchor, in which the other rules find nothing. -/
theorem markUp_of_found (hid : ∀ c ∈ id, isTextChar c = true) (hurl : ∀ c ∈ url, isUrlText c = true)
    (h : s.link? id = some ⟨url, none⟩) (hne : id ≠ []) :
    markUp s true (reference id) = "See ".toList ++ anchor url none id := by
  have hself : Html.escape id = id := escape_of_isTextChar hid
  have hw : ∀ c ∈ reference id, isWrittenChar c = true := by
    rw [← hself]
    exact isWrittenChar_of_mem fun c hc => by rw [isIdChar, hid c hc, Bool.true_or]
  have hurlself : Html.escape url = url :=
    Html.escape_eq_self_iff.mpr fun c hc => by
      have hreserved : ∀ d, Html.isReserved d = true → isUrlText d = false := by
        intro d hd
        rcases Html.eq_or_of_isReserved hd with rfl | rfl | rfl | rfl | rfl <;> rfl
      by_contra hc'
      exact ne_of_class (hurl c hc) (hreserved c (by simpa using hc')) rfl
  have hresolve : resolve s true id id ('[' :: (id ++ [']'])) = anchor url none id := by
    rw [resolve, h]
    show anchor (Html.escape url) none id = _
    rw [hurlself]
  have hno : ∀ d, isTextChar d = false → d ∉ id := fun d hd hmem => ne_of_class (hid d hmem) hd rfl
  have hchars := isAnchorChar_of_mem hid hurl
  rw [markUp_reference s hw hne (hno _ rfl) (hno _ rfl), hresolve, autolinks_anchor hid hurl, footnotes,
    (idle_footnoteRule s ⟨'[', by decide, by decide⟩).replaceBy hchars, colorPreviews_anchor hid hurl,
    hardBreaks, (idle_hardBreakRule (by decide)).replaceBy hchars]

/-! ### The paragraph -/

/-- A document of one paragraph, without footnotes. -/
theorem render_paragraph {e : Rendering} {html : Text} (hnotes : e.references.hasFootnotes = false)
    (h : e.inlineHtml t = pure html) (hline : '\n' ∉ html) :
    e.render [.paragraph t] = pure (element "p" html) := by
  have hparagraph : ∀ b ∈ [Block.paragraph t], e.html b = pure (element "p" html) := by
    intro b hb
    rw [List.mem_singleton.mp hb, html_paragraph h hline]
  have hjoin : (Fragments.ofList [element "p" html]).join ['\n'] = element "p" html := by
    rw [Fragments.join_ofList (by simp [element])]
    simp [List.intercalate]
  rw [Rendering.render, Report.mapM_eq_pure hparagraph, pure_bind, hnotes]
  exact congrArg pure hjoin

/-- What the reference shows: an anchor, or itself as it is written. -/
def shown (id url : Text) : Text :=
  if id.any Html.isReserved then '[' :: (Html.escape id ++ [']']) else anchor url none id

theorem escape_reference (id : Text) : Html.escape (reference id) = reference (Html.escape id) := by
  have hword : Html.escape "See [".toList = "See [".toList := by decide
  have hclose : Html.escapeChar ']' = [']'] := rfl
  rw [reference, Html.escape_append, Html.escape_append, hword]
  simp [reference, hclose]

section Defined

variable (hid : ∀ c ∈ id, isIdChar c = true) (hurl : ∀ c ∈ url, isUrlText c = true)

include hid

theorem blocks_linkDocument (structured : Bool) :
    Document.blocks structured [[], reference id] = pure [.paragraph (reference id)] := by
  have hno : ∀ d, isIdChar d = false → d ∉ "ee []".toList → d ∉ "ee [".toList ++ (id ++ [']']) := by
    intro d hd hmark hmem
    have hnot : d ∉ id := fun hdid => ne_of_class (hid d hdid) hd rfl
    simp only [String.reduceToList, List.mem_append, List.mem_cons, List.not_mem_nil, hnot, false_or,
      or_false] at hmem hmark
    tauto
  have hparagraph : Document.matchAt structured 1 (reference id) [] = ⟨.paragraph (reference id), 0, []⟩ :=
    matchAt_of_letter structured 1 (.inl rfl) (by decide) (hno _ (by decide) (by decide))
      (hno _ (by decide) (by decide))
  rw [Document.blocks, Document.blocksFrom_blank _ _ _ rfl]
  exact blocksFrom_of_matchAt rfl hparagraph fun k => Document.blocksFrom_nil structured k

include hurl

theorem isPrintable_of_mem_shown : ∀ c ∈ "See ".toList ++ shown id url, isPrintable c = true := by
  unfold shown
  split
  · exact fun c hc => isPrintable_of_isWrittenChar (isWrittenChar_of_mem hid c hc)
  · next hplain =>
    have htext := isTextChar_of_not_reserved hid (by simpa using hplain)
    exact fun c hc => isPrintable_of_isAnchorChar (isAnchorChar_of_mem htext hurl c hc)

/-- The definition is found exactly if the identifier is written alike for HTML. -/
theorem markUp_linkReferences (hne : id ≠ []) :
    markUp (linkReferences id url) true (reference (Html.escape id)) = "See ".toList ++ shown id url := by
  have hfound := link?_linkReferences id url (Html.escape id)
  unfold shown
  split
  · next hreserved =>
    obtain ⟨c, hc, hcreserved⟩ := List.any_eq_true.mp hreserved
    have hkey : lower (Html.escape id) ≠ lower id := fun heq => by
      rw [(lower_escape_eq_iff hid).mp heq c hc] at hcreserved
      cases hcreserved
    rw [if_neg hkey] at hfound
    exact markUp_of_not_found hid hfound hne
  · next hplain =>
    have hself : ∀ c ∈ id, Html.isReserved c = false := by simpa using hplain
    rw [Html.escape_eq_self_iff.mpr hself, if_pos rfl] at hfound
    rw [Html.escape_eq_self_iff.mpr hself]
    exact markUp_of_found (isTextChar_of_not_reserved hid hself) hurl hfound hne

theorem render_reference (hne : id ≠ []) :
    Inline.render (linkReferences id url) true (reference id) = pure ("See ".toList ++ shown id url) := by
  have hw := isWrittenChar_of_mem hid
  have hno : ∀ d, isWrittenChar d = false → d ∉ reference (Html.escape id) := fun d hd hmem =>
    ne_of_class (hw d hmem) hd rfl
  have hwritten : (if true then Html.escape (reference id) else reference id) =
      reference (Html.escape id) := escape_reference id
  rw [render_of_no_marks _ hwritten (hno _ rfl) (hno _ rfl), markUp_linkReferences hid hurl hne,
    revertEscapes_of_isAscii fun c hc => isAscii_of_isPrintable (isPrintable_of_mem_shown hid hurl c hc)]

/-! ### The whole document -/

/-- The first line of the document defines the link. -/
theorem definitionLine?_linkLine (hne : id ≠ []) (hurlne : url ≠ []) :
    References.definitionLine? (linkLine id url) = some (.link id url none) := by
  have hno : ∀ d, isIdChar d = false → d ∉ id := fun d hd hmem => ne_of_class (hid d hmem) hd rfl
  have hchars : ∀ c ∈ url, References.isUrlChar c = true := by
    intro c hc
    have hblank : isBlank c = false := by
      by_contra hc'
      obtain rfl := eq_space_of_isBlank (isPrintable_of_isUrlText (hurl c hc)) (by simpa using hc')
      exact ne_of_class (hurl _ hc) (d := ' ') rfl rfl
    simp [References.isUrlChar, hblank, ne_of_class (hurl c hc) (d := '>') rfl]
  let w : References.WrittenLink :=
    ⟨[], id, [' '], false, url, false, none, [], rfl, hne, hno _ rfl,
      fun hhead => hno '^' rfl (List.mem_of_mem_head? hhead), rfl, hurlne, hchars, rfl⟩
  have hunbracketed : w.IsUnbracketed := fun _ hhead =>
    absurd rfl (ne_of_class (hurl '<' (List.mem_of_mem_head? hhead)) (d := '<') rfl)
  have hline : w.line = linkLine id url := by
    simp [w, References.WrittenLink.line, References.WrittenLink.target, References.WrittenLink.tail,
      References.bracket, linkLine]
  rw [← hline, References.definitionLine?_writtenLink w hunbracketed]
  rfl

theorem extractLines_linkDocument (hne : id ≠ []) (hurlne : url ≠ []) :
    References.extractLines .empty false [linkLine id url, [], reference id] =
      ([[], reference id], linkReferences id url) := by
  have hfence : Line.isFence (linkLine id url) = false := isFence_cons _ (by decide) (by decide)
  have hempty : Line.isFence [] = false := rfl
  have hnothing : References.definitionLine? [] = none := rfl
  have hkept : ∀ l ∈ [reference id], isKept l = true := by
    intro l hl
    rw [List.mem_singleton.mp hl]
    exact isKept_cons _ (by decide) (by decide)
  have hlast := extractLines_of_isKept (linkReferences id url) [] hkept
  rw [List.append_nil] at hlast
  rw [References.extractLines, hfence, definitionLine?_linkLine hid hurl hne hurlne]
  show References.extractLines (linkReferences id url) false [[], reference id] = _
  rw [References.extractLines, hempty, hnothing, hlast]
  rfl

theorem isPrintable_of_mem_linkDocument :
    ∀ l ∈ [linkLine id url, [], reference id], ∀ c ∈ l, isPrintable c = true := by
  have hidchars : ∀ c ∈ id, isPrintable c = true := fun c hc => isPrintable_of_isIdChar (hid c hc)
  have hline : ∀ c ∈ linkLine id url, isPrintable c = true :=
    List.forall_mem_cons.mpr ⟨rfl, List.forall_mem_append.mpr ⟨hidchars, List.forall_mem_cons.mpr ⟨rfl,
      List.forall_mem_cons.mpr ⟨rfl, List.forall_mem_cons.mpr ⟨rfl,
        fun c hc => isPrintable_of_isUrlText (hurl c hc)⟩⟩⟩⟩⟩
  have hreference : ∀ c ∈ reference id, isPrintable c = true :=
    List.forall_mem_append.mpr ⟨List.all_eq_true.mp (by decide),
      List.forall_mem_append.mpr ⟨hidchars, List.all_eq_true.mp (by decide)⟩⟩
  intro l hl
  simp only [List.mem_cons, List.not_mem_nil, or_false] at hl
  rcases hl with rfl | rfl | rfl
  · exact hline
  · simp
  · exact hreference

/-- The document is split into its paragraph, and its link is defined. -/
theorem tokenize_linkDocument (c : Config) (hne : id ≠ []) (hurlne : url ≠ []) :
    Document.tokenize c (linkDocument id url) .empty =
      (do Report.log (.tokenized 1 1 0); pure [.paragraph (reference id)], linkReferences id url) := by
  have hnonempty : linkDocument id url ≠ [] := List.cons_ne_nil _ _
  exact tokenize_unlines c hnonempty (isPrintable_of_mem_linkDocument hid hurl)
    (extractLines_linkDocument hid hurl hne hurlne) (List.cons_ne_nil _ _) (by simp)
    (blocks_linkDocument hid c.structuredData)

theorem answer_linkDocument (c : Config) (r : Highlight.Registry) (hne : id ≠ []) (hurlne : url ≠ []) :
    (renderMarkdown { c with sanitize := true } r .empty (.string (linkDocument id url))).1.answer =
      .ok (element "p" ("See ".toList ++ shown id url)) := by
  let e : Rendering := Config.rendering { c with sanitize := true } r (linkReferences id url)
  have hinline : e.inlineHtml (reference id) = pure ("See ".toList ++ shown id url) :=
    render_reference hid hurl hne
  have hline : '\n' ∉ "See ".toList ++ shown id url :=
    not_mem_of_printable (by decide) (isPrintable_of_mem_shown hid hurl)
  have hrender : e.render [.paragraph (reference id)] =
      pure (element "p" ("See ".toList ++ shown id url)) := render_paragraph rfl hinline hline
  rw [renderMarkdown, Document.tokenizeValue, tokenize_linkDocument hid hurl _ hne hurlne]
  dsimp only
  rw [Report.answer_bind_of_ok (a := [.paragraph (reference id)]) rfl, hrender]
  rfl

end Defined

/-- **References lead to their links, if HTML reserves no character of the identifier.** A document with
the definition of a link and a reference to it shows an anchor with the address and the identifier, if no
character of the identifier is reserved. Else it shows the reference as it is written. -/
theorem reference_shows_anchor_iff (c : Config) (r : Highlight.Registry) (hne : id ≠ [])
    (hid : ∀ d ∈ id, isIdChar d = true) (hurlne : url ≠ []) (hurl : ∀ d ∈ url, isUrlText d = true) :
    let answer :=
      (renderMarkdown { c with sanitize := true } r .empty (.string (linkDocument id url))).1.answer
    answer = .ok (element "p" ("See ".toList ++
        if id.any Html.isReserved then '[' :: (Html.escape id ++ [']']) else anchor url none id)) ∧
      (answer = .ok (element "p" ("See ".toList ++ anchor url none (Html.escape id))) ↔
        ∀ d ∈ id, Html.isReserved d = false) := by
  have hanswer := answer_linkDocument hid hurl c r hne hurlne
  refine ⟨hanswer, ?_⟩
  rw [hanswer]
  constructor
  · intro heq
    by_contra hreserved
    have hany : id.any Html.isReserved = true := by simpa using hreserved
    have hshown : shown id url = anchor url none (Html.escape id) :=
      List.append_cancel_left (element_inj.mp (Except.ok.inj heq))
    rw [shown, if_pos hany, anchor_eq] at hshown
    exact absurd (List.cons.inj hshown).1 (by decide)
  · intro hplain
    have hnone : id.any Html.isReserved = false := by simpa using hplain
    rw [shown, if_neg (by simp [hnone]), Html.escape_eq_self_iff.mpr hplain]

/-- An identifier with a capital letter, a digit and a space. -/
theorem reference_shows_anchor_iff_spaced :
    let id := "The docs 2".toList
    let url := "http://a.b/c-d".toList
    (id ≠ [] ∧ ∀ d ∈ id, isIdChar d = true) ∧ (url ≠ [] ∧ ∀ d ∈ url, isUrlText d = true) ∧
      (renderMarkdown {} .builtin .empty (.string "[The docs 2]: http://a.b/c-d\n\nSee [The docs 2]".toList)).1.answer =
        .ok "<p>See <a href=\"http://a.b/c-d\">The docs 2</a></p>".toList := by
  intro id url
  have hid : ∀ d ∈ id, isIdChar d = true := forall_mem_of_all (by decide)
  have hurl : ∀ d ∈ url, isUrlText d = true := forall_mem_of_all (by decide)
  have hanswer := (reference_shows_anchor_iff {} .builtin (by decide) hid (by decide) hurl).1
  exact ⟨⟨by decide, hid⟩, ⟨by decide, hurl⟩, hanswer⟩

/-- A reserved character hides the link from a reference that is written like the definition; the link
is found where the definition has the written form for HTML. -/
theorem reserved_character_hides_link :
    (renderMarkdown {} .builtin .empty (.string "[a&b]: u\n\nSee [a&b]".toList)).1.answer =
      .ok "<p>See [a&amp;b]</p>".toList ∧
    (renderMarkdown {} .builtin .empty (.string "[a&amp;b]: u\n\nSee [a&b]".toList)).1.answer =
      .ok "<p>See <a href=\"u\">a&amp;b</a></p>".toList := by
  constructor
  · decide +kernel
  · decide +kernel

end Markdown.Links
