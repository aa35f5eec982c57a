import Markdown.Proofs.CanonicalBlocks
import Markdown.Proofs.CanonicalNodes
import Markdown.Proofs.Numbering

/-!
# Footnote references and the section of footnotes

A document keeps the identifier of a footnote as it is written. When sanitizing, a reference is looked
up by the written form of its identifier, and the section writes the kept identifier for HTML. So the
three agree for identifiers without a character that HTML reserves: the anchor of the reference leads
to an item of the section. With such a character the reference stays as it is written, or its anchor
leads nowhere.
-/

namespace Markdown.Footnotes

open Text Inline

variable {s : References} {t x id : Text} {n : Nat}

/-! ### The section -/

/-- The item of a footnote with an identifier that is written for HTML. -/
def item (id content : Text) : Text :=
  "<li id=\"fn-".toList ++ id ++ "\" class=\"footnote-item\">".toList ++ content ++
    " <a href=\"#fnref-".toList ++ id ++ "\" class=\"footnote-backref\">".toList ++
    Rendering.backArrow :: "</a></li>".toList

/-- The section with the items of some footnotes, each an identifier and a content. -/
def notesSection (items : List (Text × Text)) : Text :=
  "<div class=\"footnotes\"><hr /><ol class=\"footnote-list\">".toList ++
    items.flatMap (fun i => item i.1 i.2) ++ "</ol></div>".toList

theorem notesSection_ne_nil (items : List (Text × Text)) : notesSection items ≠ [] :=
  List.append_ne_nil_of_left_ne_nil (List.append_ne_nil_of_left_ne_nil (by decide) _) _

/-- The HTML of a document ends with a section of items with the given identifiers. -/
def EndsInSection (html : Text) (ids : List Text) : Prop :=
  ∃ front items, html = front ++ notesSection items ∧ items.map Prod.fst = ids

theorem value_footnoteHtml (e : Rendering) (f : Footnote) :
    (e.footnoteHtml f).value = item (Html.escape f.id) (e.inlineHtml f.content).value := by
  unfold Rendering.footnoteHtml item
  rw [Report.value_bind, Report.value_pure]

theorem value_footnotesHtml (e : Rendering) :
    e.footnotesHtml.value = notesSection
      (e.references.sortedFootnotes.map fun f => (Html.escape f.id, (e.inlineHtml f.content).value)) := by
  unfold Rendering.footnotesHtml notesSection
  simp only [Report.value_bind, Report.value_pure, Report.value_mapM, value_footnoteHtml,
    List.flatMap_def, List.map_map, Function.comp_def]

/-- A document with footnotes ends in their section. -/
theorem endsInSection_render {e : Rendering} (hnotes : e.references.hasFootnotes = true)
    (bs : List Block) : EndsInSection (e.render bs).value
      (e.references.sortedFootnotes.map fun f => Html.escape f.id) := by
  obtain ⟨front, hfront⟩ := Fragments.exists_join_ofList_concat (bs.map fun b => (e.html b).value)
    e.footnotesHtml.value ['\n']
  refine ⟨front, e.references.sortedFootnotes.map fun f =>
    (Html.escape f.id, (e.inlineHtml f.content).value), ?_, by rw [List.map_map]; rfl⟩
  rw [← value_footnotesHtml, ← hfront]
  simp [Rendering.render, hnotes, List.singleton]

/-! ### Anchors -/

/-- The rule for footnote references replaces a reference to `x` in the text `t` by an anchor that
shows the number `n`. -/
def WritesAnchor (s : References) (t x : Text) (n : Nat) : Prop :=
  ⟨some (footnoteAnchor x n), '[' :: '^' :: (x ++ [']'])⟩ ∈ pieces (footnoteRule s) t

instance : Decidable (WritesAnchor s t x n) :=
  inferInstanceAs (Decidable (_ ∈ _))

/-- An anchor is written for a footnote with exactly this identifier. -/
theorem WritesAnchor.footnote? (h : WritesAnchor s t x n) : ∃ f, s.footnote? x = some f := by
  obtain ⟨before, c, r, hit, rest, hrule, htakes, htext⟩ := exists_hit_of_mem_pieces h rfl
  obtain ⟨id, rest', htakes', -, hwritten | ⟨f, hf, -⟩⟩ := footnoteRule_eq_some hrule
  · rw [hwritten] at htext
    cases htext
  · have hsource : '[' :: '^' :: (x ++ [']']) = '[' :: '^' :: (id ++ [']']) :=
      htakes.take.symm.trans htakes'.take
    simp only [List.cons.injEq, true_and, List.append_cancel_right_eq] at hsource
    exact ⟨f, hsource ▸ hf⟩

theorem mem_sortedFootnotes {ids : List Text} (h : References.Numbered ids s) {f : Footnote}
    (hf : s.footnote? x = some f) : f ∈ s.sortedFootnotes ∧ f.id = x := by
  obtain ⟨e, he, rfl⟩ := Option.map_eq_some_iff.mp hf
  have hmem := List.mem_of_find?_eq_some he
  have hkey : e.1 = x := by simpa using List.find?_some he
  refine ⟨?_, (h.key_eq e hmem).symm.trans hkey⟩
  rw [References.sortedFootnotes, List.mem_mergeSort]
  exact List.mem_map.mpr ⟨e, hmem, rfl⟩

/-! ### A reference in a paragraph -/

open Canonical

/-- A character of the identifiers considered here. -/
def isIdChar (c : Char) : Bool :=
  isTextChar c || Html.isReserved c

/-- The written form of an identifier has other characters only for those of references. -/
theorem notMem_escape_of_isIdChar {d : Char} (hid : ∀ c ∈ id, isIdChar c = true)
    (hd : d ∉ Html.referenceChars) (hchar : isIdChar d = false) : d ∉ Html.escape id :=
  Html.not_mem_escape_of_not_mem hd fun hmem => ne_of_class (hid d hmem) hchar rfl

/-- Without reserved characters such an identifier is a plain text. -/
theorem isTextChar_of_not_reserved (hid : ∀ c ∈ id, isIdChar c = true)
    (h : ∀ c ∈ id, Html.isReserved c = false) : ∀ c ∈ id, isTextChar c = true := by
  intro c hc
  have hchar := hid c hc
  rwa [isIdChar, h c hc, Bool.or_false] at hchar

/-- A reference behind a letter. -/
def referenceText (id : Text) : Text :=
  'x' :: '[' :: '^' :: (id ++ [']'])

/-- A character of such a text when it is written for HTML. -/
def isSourceChar (c : Char) : Bool :=
  isTextChar c || c ∈ "[^]&;#".toList

theorem isSourceChar_of_isIdChar {c : Char} (hc : isIdChar c = true) :
    ∀ d ∈ Html.escapeChar c, isSourceChar d = true := by
  rcases Bool.or_eq_true_iff.mp hc with htext | hreserved
  · rw [escapeChar_of_isTextChar htext]
    intro d hd
    rw [List.mem_singleton.mp hd, isSourceChar, htext, Bool.true_or]
  · rcases Html.eq_or_of_isReserved hreserved with rfl | rfl | rfl | rfl | rfl <;>
      exact List.all_eq_true.mp (by decide)

theorem isSourceChar_of_mem (hid : ∀ c ∈ id, isIdChar c = true) :
    ∀ c ∈ referenceText (Html.escape id), isSourceChar c = true := by
  have hescape : ∀ d ∈ Html.escape id, isSourceChar d = true := by
    intro d hd
    obtain ⟨c, hc, hd⟩ := List.mem_flatMap.mp hd
    exact isSourceChar_of_isIdChar (hid c hc) d hd
  simp only [referenceText, List.forall_mem_cons, List.forall_mem_append]
  exact ⟨rfl, rfl, rfl, hescape, rfl, by simp⟩

/-- The rule for raised text needs two carets. -/
theorem caretRule_referenceText {w : Text} (hw : '^' ∉ w) (wrap : Text → Text) :
    replaceBy (shortSpan caretStyle wrap) (referenceText w) = referenceText w := by
  refine replaceBy_eq_self fun before x c r hit hsplit _ hhit => ?_
  obtain ⟨inner, rest, htakes, -⟩ := shortSpan_eq_some hhit
  have hcount : (referenceText w).count '^' = 1 := by
    simp [referenceText, List.count_eq_zero_of_not_mem hw]
  rw [hsplit, htakes.split] at hcount
  simp [caretStyle] at hcount
  omega

/-- Without definitions of links, references stay as they are written. -/
theorem references_of_no_links (hlinks : s.links = []) (sanitize : Bool) (t : Text) :
    references s sanitize t = t := by
  have hresolve : ∀ id label written, resolve s sanitize id label written = written := by
    simp [resolve, References.link?, References.find?, hlinks]
  have hfull : ∀ t, replaceBy (fullReferenceRule s sanitize) t = t := fun t =>
    replaceBy_eq_self fun before x c r hit _ _ hhit => by
      obtain ⟨label, id, rest, htakes, htext, -⟩ := fullReferenceRule_eq_some hhit
      rw [htext, hresolve, htakes.take]
  have hshortcut : ∀ t, replaceBy (shortcutRule s sanitize) t = t := fun t =>
    replaceBy_eq_self fun before x c r hit _ _ hhit => by
      obtain ⟨label, rest, htakes, htext, -⟩ := shortcutRule_eq_some hhit
      rw [htext, hresolve, htakes.take]
  rw [references, hfull, hshortcut]

/-- What the rule for footnotes writes for a reference. -/
def resolved (s : References) (w : Text) : Text :=
  match s.footnote? w with
  | some f => footnoteAnchor w f.index
  | none => '[' :: '^' :: (w ++ [']'])

theorem footnotes_referenceText (s : References) {w : Text} (hne : w ≠ []) (hw : ']' ∉ w) :
    footnotes s (referenceText w) = 'x' :: resolved s w := by
  have hbracket : Inline.bracketed? (w ++ [']']) = some (w, []) := cutAt?_append [] hw
  have hrule : ∀ before, footnoteRule s before '[' ('^' :: (w ++ [']'])) =
      some ⟨('^' :: (w ++ [']'])).length, resolved s w⟩ := by
    intro before
    simp only [footnoteRule, hbracket, hitUpTo, resolved]
    cases s.footnote? w <;> simp [hne]
  rw [footnotes, replaceBy_eq_replaceFrom, referenceText, replaceFrom_cons_none rfl,
    replaceFrom_cons_some (hrule _)]
  simp

theorem markUp_referenceText {w : Text} (hlinks : s.links = [])
    (hsource : ∀ c ∈ referenceText w, isSourceChar c = true) (hne : w ≠ []) (hcaret : '^' ∉ w)
    (hbracket : ']' ∉ w) :
    markUp s true (referenceText w) = hardBreaks (colorPreviews ('x' :: resolved s w)) := by
  have hdecorations : decorations (referenceText w) = referenceText w := by
    apply applyRules_eq_self
    simp only [decorationRules, List.forall_mem_cons]
    exact ⟨(idle_longSpan _ _ ⟨'~', by decide, rfl⟩).replaceBy hsource,
      (idle_longSpan _ _ ⟨'=', by decide, rfl⟩).replaceBy hsource, caretRule_referenceText hcaret _,
      (idle_shortSpan _ _ rfl).replaceBy hsource, by simp⟩
  rw [markUp, emphasis_eq_self (by decide) (by decide) hsource, hdecorations, imagesAndLinks,
    (idle_imageRule ⟨'!', by decide, rfl⟩).replaceBy hsource,
    (idle_linkRule ⟨'(', by decide, rfl⟩).replaceBy hsource,
    references_of_no_links hlinks, autolinks, (idle_urlRule (by decide)).replaceBy hsource,
    (idle_mailRule (by decide)).replaceBy hsource, footnotes_referenceText s hne hbracket]

/-! ### Colours and line breaks behind a reference -/

theorem hashBehindAmp_escape (hid : ∀ c ∈ id, isIdChar c = true) (before : Char) :
    hashBehindAmp (before :: (Html.escape id ++ [']'])) = true := by
  induction id generalizing before with
  | nil => rfl
  | cons c r ih =>
    obtain ⟨hc, hr⟩ := List.forall_mem_cons.mp hid
    have hhash : c ≠ '#' := ne_of_class hc rfl
    rw [Html.escape_cons, List.append_assoc]
    exact hashBehindAmp_escapeChar hhash (ih hr) before

/-- A hash in the written form of an identifier belongs to a reference and is no colour. -/
theorem colorRule_referenceText (hid : ∀ c ∈ id, isIdChar c = true) :
    replaceBy colorRule (referenceText (Html.escape id)) = referenceText (Html.escape id) :=
  colorRule_of_hashBehindAmp (by simp [referenceText, hashBehindAmp, hashBehindAmp_escape hid])

/-- What stands between the brackets of the opening tag of an anchor. -/
def anchorTag (id : Text) : Text :=
  "a href=\"#fn-".toList ++ (id ++ ("\" id=\"fnref-".toList ++ (id ++
    "\" class=\"footnote-ref\"".toList)))

theorem footnoteAnchor_eq (id : Text) (n : Nat) :
    footnoteAnchor id n =
      '<' :: (anchorTag id ++ ['>']) ++ ('[' :: (ofNat n ++ [']']) ++ ("</a>".toList ++ [])) := by
  have hsplit : ∀ a b d e : Text, '<' :: a ++ id ++ b ++ id ++ (d ++ ['>', '[']) ++ ofNat n ++
      ']' :: e = '<' :: (a ++ (id ++ (b ++ (id ++ d))) ++ ['>']) ++
        ('[' :: (ofNat n ++ [']']) ++ (e ++ [])) := by
    simp
  exact hsplit _ _ "\" class=\"footnote-ref\"".toList "</a>".toList

theorem close_notMem_anchorTag (h : '>' ∉ id) : '>' ∉ anchorTag id := by
  have hfirst : '>' ∉ "a href=\"#fn-".toList := by decide
  have hsecond : '>' ∉ "\" id=\"fnref-".toList := by decide
  have hthird : '>' ∉ "\" class=\"footnote-ref\"".toList := by decide
  intro hmem
  rcases List.mem_append.mp hmem with hmem | hmem
  · exact hfirst hmem
  · rcases List.mem_append.mp hmem with hmem | hmem
    · exact h hmem
    · rcases List.mem_append.mp hmem with hmem | hmem
      · exact hsecond hmem
      · exact (List.mem_append.mp hmem).elim h hthird

/-- The colours of an anchor are not looked for in its tags. -/
theorem colorPreviews_footnoteAnchor (hid : ∀ c ∈ id, isTextChar c = true) (n : Nat) :
    colorPreviews ('x' :: footnoteAnchor id n) = 'x' :: footnoteAnchor id n := by
  have hopening : Html.IsTag ('<' :: (anchorTag id ++ ['>'])) :=
    ⟨_, rfl, close_notMem_anchorTag fun hmem => ne_of_class (hid _ hmem) rfl rfl⟩
  have hclosing : Html.IsTag "</a>".toList := ⟨"/a".toList, by decide, by decide⟩
  have hnumber : ∀ d, isTextChar d = false → d ∉ ofNat n := fun d hd hmem =>
    ne_of_class (p := isTextChar) (by simp [isTextChar, isAsciiDigit_of_mem_ofNat hmem]) hd rfl
  have hlabel : '<' ∉ '[' :: (ofNat n ++ [']']) ∧ '#' ∉ '[' :: (ofNat n ++ [']']) := by
    simp [hnumber '<' rfl, hnumber '#' rfl]
  show colorPreviews (['x'] ++ footnoteAnchor id n) = ['x'] ++ footnoteAnchor id n
  rw [footnoteAnchor_eq, colorPreviews_text (by decide) (by decide) hopening,
    colorPreviews_text hlabel.1 hlabel.2 hclosing, colorPreviews_nil]

/-! ### The document with one reference and its footnote -/

/-- The definition of a footnote. -/
def noteLine (id : Text) : Text :=
  '[' :: '^' :: (id ++ "]: note".toList)

/-- A paragraph with a reference, and the definition of its footnote. -/
def noteDocument (id : Text) : Text :=
  unlines [referenceText id, [], noteLine id]

/-- The definitions of this document. -/
def noteReferences (id : Text) : References :=
  References.empty.setFootnote id "note".toList

/-- What the paragraph shows: an anchor, or the reference as it is written. -/
def referenceHtml (id : Text) : Text :=
  if id.any Html.isReserved then referenceText (Html.escape id) else 'x' :: footnoteAnchor id 1

theorem footnote?_noteReferences (id w : Text) :
    (noteReferences id).footnote? w = if w = id then some ⟨id, "note".toList, 1⟩ else none := by
  by_cases hw : w = id
  · simp [noteReferences, References.footnote?, References.find?, References.setFootnote,
      References.put, References.empty, hw]
  · simp [noteReferences, References.footnote?, References.find?, References.setFootnote,
      References.put, References.empty, hw, Ne.symm hw]

theorem isPrintable_of_isSourceChar {c : Char} (h : isSourceChar c = true) : isPrintable c = true := by
  have hmarks : ∀ d ∈ "[^]&;#".toList, isPrintable d = true :=
    List.all_eq_true.mp (by decide)
  rcases Bool.or_eq_true_iff.mp h with htext | hmark
  · exact isPrintable_of_isTextChar htext
  · exact hmarks c (of_decide_eq_true hmark)

theorem isPrintable_of_mem_footnoteAnchor (hid : ∀ c ∈ id, isTextChar c = true) (n : Nat) :
    ∀ c ∈ footnoteAnchor id n, isPrintable c = true := by
  have hid : ∀ c ∈ id, isPrintable c = true := fun c hc => isPrintable_of_isTextChar (hid c hc)
  have hnumber : ∀ c ∈ ofNat n, isPrintable c = true := fun c hc =>
    isPrintable_of_isTextChar (by simp [isTextChar, isAsciiDigit_of_mem_ofNat hc])
  have hjoin : ∀ {s t : Text}, (∀ c ∈ s, isPrintable c = true) → (∀ c ∈ t, isPrintable c = true) →
      ∀ c ∈ s ++ t, isPrintable c = true := fun hs ht => List.forall_mem_append.mpr ⟨hs, ht⟩
  have hfixed : ∀ s : Text, s.all isPrintable = true → ∀ c ∈ s, isPrintable c = true :=
    fun s => List.all_eq_true.mp
  exact hjoin (hjoin (hjoin (hjoin (hjoin (hjoin (hfixed _ (by decide)) hid) (hfixed _ (by decide)))
    hid) (hfixed _ (by decide))) hnumber) (hfixed _ (by decide))

theorem escape_referenceText (id : Text) :
    Html.escape (referenceText id) = referenceText (Html.escape id) := by
  have hx : Html.escapeChar 'x' = ['x'] := rfl
  have hopen : Html.escapeChar '[' = ['['] := rfl
  have hcaret : Html.escapeChar '^' = ['^'] := rfl
  have hclose : Html.escapeChar ']' = [']'] := rfl
  simp [referenceText, hx, hopen, hcaret, hclose]

/-- The reference of the document becomes an anchor exactly if its identifier is written alike for
HTML. -/
theorem colorPreviews_resolved (hid : ∀ c ∈ id, isIdChar c = true) :
    colorPreviews ('x' :: resolved (noteReferences id) (Html.escape id)) = referenceHtml id := by
  have hsource := isSourceChar_of_mem hid
  unfold referenceHtml
  split
  · next hreserved =>
    obtain ⟨c, hc, hcreserved⟩ := List.any_eq_true.mp hreserved
    have hne : Html.escape id ≠ id := fun h => by
      rw [Html.escape_eq_self_iff.mp h c hc] at hcreserved
      cases hcreserved
    have hplace : '<' ∉ referenceText (Html.escape id) := fun hmem => by
      have hlt := hsource _ hmem
      revert hlt
      decide
    rw [resolved, footnote?_noteReferences, if_neg hne]
    show colorPreviews (referenceText (Html.escape id)) = _
    rw [colorPreviews_of_no_tag hplace, colorRule_referenceText hid]
  · next hplain =>
    have hself : ∀ c ∈ id, Html.isReserved c = false := by
      simpa using hplain
    rw [Html.escape_eq_self_iff.mpr hself, resolved, footnote?_noteReferences, if_pos rfl]
    exact colorPreviews_footnoteAnchor (isTextChar_of_not_reserved hid hself) 1

theorem isPrintable_of_mem_referenceHtml (hid : ∀ c ∈ id, isIdChar c = true) :
    ∀ c ∈ referenceHtml id, isPrintable c = true := by
  unfold referenceHtml
  split
  · exact fun c hc => isPrintable_of_isSourceChar (isSourceChar_of_mem hid c hc)
  · next hplain =>
    have htext := isTextChar_of_not_reserved hid (by simpa using hplain)
    exact List.forall_mem_cons.mpr ⟨by decide, isPrintable_of_mem_footnoteAnchor htext 1⟩

theorem render_referenceText (hne : id ≠ []) (hid : ∀ c ∈ id, isIdChar c = true) :
    Inline.render (noteReferences id) true (referenceText id) = pure (referenceHtml id) := by
  have hsource := isSourceChar_of_mem hid
  have hnot : ∀ d, isSourceChar d = false → d ∉ referenceText (Html.escape id) := by
    intro d hd hmem
    rw [hsource d hmem] at hd
    cases hd
  have hprintable := isPrintable_of_mem_referenceHtml hid
  have hbreaks : hardBreaks (referenceHtml id) = referenceHtml id :=
    (idle_hardBreakRule (by decide)).replaceBy hprintable
  have hmarks : '^' ∉ Html.escape id ∧ ']' ∉ Html.escape id :=
    ⟨notMem_escape_of_isIdChar hid (by decide) rfl, notMem_escape_of_isIdChar hid (by decide) rfl⟩
  have hwritten : (if true then Html.escape (referenceText id) else referenceText id) =
      referenceText (Html.escape id) := escape_referenceText id
  rw [render_of_no_marks _ hwritten (hnot _ (by decide)) (hnot _ (by decide)),
    markUp_referenceText rfl hsource (Html.escape_ne_nil hne) hmarks.1 hmarks.2,
    colorPreviews_resolved hid, hbreaks,
    revertEscapes_of_isAscii fun c hc => isAscii_of_isPrintable (hprintable c hc)]

/-- The definition line of the document defines the footnote. -/
theorem definitionLine?_noteLine (hne : id ≠ []) (hid : ∀ c ∈ id, isIdChar c = true) :
    References.definitionLine? (noteLine id) = some (.footnote id "note".toList) := by
  have hbracket : ']' ∉ id := fun hmem => absurd (hid _ hmem) (by decide)
  have hcut : cutAt? ']' (id ++ "]: note".toList) = some (id, ": note".toList) :=
    cutAt?_append ": note".toList hbracket
  have hlabel : References.bracketed? (id ++ "]: note".toList) = some (id, " note".toList) := by
    rw [References.bracketed?, hcut]
    simp [hne]
  have hcontent : trim " note".toList = "note".toList := by decide
  have htrim : trimStart (noteLine id) = noteLine id := trimStart_cons (by decide) _
  have hfootnote : References.footnoteLine? (noteLine id) = some (.footnote id "note".toList) := by
    rw [References.footnoteLine?, htrim]
    show Option.map _ (References.bracketed? (id ++ "]: note".toList)) = _
    rw [hlabel, Option.map_some, hcontent]
  rw [References.definitionLine?, hfootnote]

theorem extractLines_noteDocument (hne : id ≠ []) (hid : ∀ c ∈ id, isIdChar c = true) :
    References.extractLines .empty false [referenceText id, [], noteLine id] =
      ([referenceText id, []], noteReferences id) := by
  have hkept : isKept (referenceText id) = true := isKept_cons _ (by decide) (by decide)
  have hempty : Line.isFence [] = false := rfl
  have hnothing : References.definitionLine? [] = none := rfl
  have hfence : Line.isFence (noteLine id) = false := isFence_cons _ (by decide) (by decide)
  have hdefined : References.extractLines .empty false [noteLine id] = ([], noteReferences id) := by
    rw [References.extractLines, hfence, definitionLine?_noteLine hne hid]
    rfl
  have hgap : References.extractLines .empty false [[], noteLine id] = ([[]], noteReferences id) := by
    rw [References.extractLines, hempty, hnothing, hdefined]
    rfl
  have hlines := @extractLines_of_isKept .empty [referenceText id] [[], noteLine id]
    (by simpa using hkept)
  rw [hgap] at hlines
  exact hlines

theorem isPrintable_of_isIdChar {c : Char} (h : isIdChar c = true) : isPrintable c = true := by
  rcases Bool.or_eq_true_iff.mp h with htext | hreserved
  · exact isPrintable_of_isTextChar htext
  · rcases Html.eq_or_of_isReserved hreserved with rfl | rfl | rfl | rfl | rfl <;> rfl

theorem isPrintable_of_mem_noteDocument (hid : ∀ c ∈ id, isIdChar c = true) :
    ∀ l ∈ [referenceText id, [], noteLine id], ∀ c ∈ l, isPrintable c = true := by
  have hid : ∀ c ∈ id, isPrintable c = true := fun c hc => isPrintable_of_isIdChar (hid c hc)
  have hnote : ∀ c ∈ "]: note".toList, isPrintable c = true := List.all_eq_true.mp (by decide)
  have hline : ∀ c ∈ noteLine id, isPrintable c = true :=
    List.forall_mem_cons.mpr ⟨rfl, List.forall_mem_cons.mpr ⟨rfl,
      List.forall_mem_append.mpr ⟨hid, hnote⟩⟩⟩
  have hreference : ∀ c ∈ referenceText id, isPrintable c = true :=
    List.forall_mem_cons.mpr ⟨rfl, List.forall_mem_cons.mpr ⟨rfl, List.forall_mem_cons.mpr ⟨rfl,
      List.forall_mem_append.mpr ⟨hid, List.all_eq_true.mp (by decide)⟩⟩⟩⟩
  intro l hl
  simp only [List.mem_cons, List.not_mem_nil, or_false] at hl
  rcases hl with rfl | rfl | rfl
  · exact hreference
  · simp
  · exact hline

/-- The document is split into the paragraph, and its footnote is defined. -/
theorem tokenize_noteDocument (c : Config) (hne : id ≠ []) (hid : ∀ c ∈ id, isIdChar c = true) :
    Document.tokenize c (noteDocument id) .empty =
      (do Report.log (.tokenized 1 0 1); pure [.paragraph (referenceText id)], noteReferences id) := by
  have hno : ∀ d, isIdChar d = false → d ∉ ['[', '^', ']'] → d ∉ '[' :: '^' :: (id ++ [']']) := by
    intro d hd hmark hmem
    have hnot : d ∉ id := fun hdid => by
      rw [hid d hdid] at hd
      cases hd
    simp only [List.mem_cons, List.mem_append, List.not_mem_nil, hnot, false_or, or_false] at hmem hmark
    exact hmark hmem
  have hparagraph : Document.matchAt c.structuredData 0 (referenceText id) [[]] =
      ⟨.paragraph (referenceText id), 1, []⟩ :=
    matchAt_of_letter c.structuredData 0 (.inr ⟨[], rfl⟩) (by decide) (hno _ (by decide) (by decide))
      (hno _ (by decide) (by decide))
  have hblocks : Document.blocks c.structuredData [referenceText id, []] =
      pure [.paragraph (referenceText id)] :=
    blocksFrom_of_matchAt rfl hparagraph fun k => Document.blocksFrom_nil c.structuredData k
  have hnonempty : noteDocument id ≠ [] := List.cons_ne_nil _ _
  exact tokenize_unlines c hnonempty (isPrintable_of_mem_noteDocument hid)
    (extractLines_noteDocument hne hid) (List.cons_ne_nil _ _) (by simp) hblocks

theorem footnotesHtml_of_pure {e : Rendering} {g : Footnote → Text}
    (h : ∀ f ∈ e.references.sortedFootnotes, e.inlineHtml f.content = pure (g f)) :
    e.footnotesHtml = Report.log (.renderingFootnotes e.references.sortedFootnotes.length) >>= fun _ =>
      pure (notesSection (e.references.sortedFootnotes.map fun f => (Html.escape f.id, g f))) := by
  have hitem : ∀ f ∈ e.references.sortedFootnotes,
      e.footnoteHtml f = pure (item (Html.escape f.id) (g f)) := by
    intro f hf
    unfold Rendering.footnoteHtml item
    rw [h f hf, pure_bind]
  unfold Rendering.footnotesHtml notesSection
  simp only [Report.mapM_eq_pure hitem, pure_bind, List.flatMap_def, List.map_map, Function.comp_def]

theorem answer_render_of_pure {e : Rendering} {g : Block → Text} {bs : List Block} {entry : LogEntry}
    {notes : Text} (hbs : ∀ b ∈ bs, e.html b = pure (g b))
    (hfootnotes : e.references.hasFootnotes = true)
    (hnotes : e.footnotesHtml = Report.log entry >>= fun _ => pure notes) :
    (e.render bs).answer = .ok ((Fragments.ofList (bs.map g ++ [notes])).join ['\n']) := by
  rw [Rendering.render, Report.mapM_eq_pure hbs, pure_bind, hfootnotes, hnotes]
  rfl

/-- A paragraph that the inline rules turn into one line. -/
theorem html_paragraph {e : Rendering} {html : Text} (h : e.inlineHtml t = pure html)
    (hline : '\n' ∉ html) : e.html (.paragraph t) = pure (element "p" html) := by
  rw [Rendering.html, Rendering.blockHtml, Rendering.linesHtml, h, map_pure, breakLines_of_not_mem hline,
    map_pure]

/-- The document shows its paragraph and the section with its footnote. -/
theorem answer_render_noteDocument {e : Rendering} (he : e.sanitize = true)
    (hreferences : e.references = noteReferences id) (hne : id ≠ []) (hid : ∀ c ∈ id, isIdChar c = true) :
    (e.render [.paragraph (referenceText id)]).answer =
      .ok (element "p" (referenceHtml id) ++ '\n' :: notesSection [(Html.escape id, "note".toList)]) := by
  have hinline : e.inlineHtml (referenceText id) = pure (referenceHtml id) := by
    rw [Rendering.inlineHtml, he, hreferences, render_referenceText hne hid]
  have hline : '\n' ∉ referenceHtml id :=
    not_mem_of_printable (by decide) (isPrintable_of_mem_referenceHtml hid)
  have hparagraph : ∀ b ∈ [Block.paragraph (referenceText id)],
      e.html b = pure (element "p" (referenceHtml id)) := by
    intro b hb
    rw [List.mem_singleton.mp hb, html_paragraph hinline hline]
  have hsorted : e.references.sortedFootnotes = [⟨id, "note".toList, 1⟩] := by
    rw [hreferences]
    simp [References.sortedFootnotes, noteReferences, References.setFootnote, References.put,
      References.empty]
  have hcontents : ∀ f ∈ e.references.sortedFootnotes, e.inlineHtml f.content = pure "note".toList := by
    intro f hf
    rw [hsorted, List.mem_singleton] at hf
    subst hf
    exact inlineHtml_of_isPlain (t := "note".toList) (by decide)
  have hsection := footnotesHtml_of_pure hcontents
  have hfootnotes : e.references.hasFootnotes = true := by
    rw [hreferences]
    rfl
  have hjoin : ∀ a b : Text, a ≠ [] → b ≠ [] →
      (Fragments.ofList ([a] ++ [b])).join ['\n'] = a ++ '\n' :: b := by
    intro a b ha hb
    rw [Fragments.join_ofList (by simp [ha, hb])]
    simp [List.intercalate]
  rw [answer_render_of_pure hparagraph hfootnotes hsection, hsorted]
  exact congrArg Except.ok (hjoin _ _ (List.cons_ne_nil _ _) (notesSection_ne_nil _))

theorem answer_noteDocument (c : Config) (r : Highlight.Registry) (hne : id ≠ [])
    (hid : ∀ d ∈ id, isIdChar d = true) :
    (renderMarkdown { c with sanitize := true } r .empty (.string (noteDocument id))).1.answer =
      .ok (element "p" (referenceHtml id) ++ '\n' :: notesSection [(Html.escape id, "note".toList)]) := by
  rw [renderMarkdown, Document.tokenizeValue, tokenize_noteDocument _ hne hid]
  dsimp only
  rw [Report.answer_bind_of_ok (a := [.paragraph (referenceText id)]) rfl]
  exact answer_render_noteDocument rfl rfl hne hid

/-- **References lead to their footnotes, if HTML reserves no character of the identifier.** An anchor
for a reference to `x` is written in front of a section with an item for the written form of `x`, which
is `x` itself if none of its characters is reserved. A document with a reference and its footnote shows
the anchor, if no character of the identifier is reserved; else the reference stays as it is
written. -/
theorem anchors_lead_to_items (c : Config) (r : Highlight.Registry) :
    (∀ t html, (renderMarkdown { c with sanitize := true } r .empty (.string t)).1.answer = .ok html →
      ∀ u x n, WritesAnchor (renderMarkdown { c with sanitize := true } r .empty (.string t)).2 u x n →
        ∃ ids, EndsInSection html ids ∧ Html.escape x ∈ ids ∧
          ((∀ d ∈ x, Html.isReserved d = false) → x ∈ ids)) ∧
    ∀ id, id ≠ [] → (∀ d ∈ id, isIdChar d = true) →
      (renderMarkdown { c with sanitize := true } r .empty (.string (noteDocument id))).1.answer =
        .ok (element "p"
            (if id.any Html.isReserved then 'x' :: '[' :: '^' :: (Html.escape id ++ [']'])
              else 'x' :: footnoteAnchor id 1) ++
          '\n' :: notesSection [(Html.escape id, "note".toList)]) := by
  constructor
  · intro t html hanswer u x n hanchor
    obtain ⟨f, hf⟩ := hanchor.footnote?
    have hnumbered := References.numbered_empty.tokenize { c with sanitize := true } t
    obtain ⟨hmem, hid⟩ := mem_sortedFootnotes hnumbered hf
    have hfootnotes : (Document.tokenize { c with sanitize := true } t .empty).2.hasFootnotes = true := by
      obtain ⟨e, he, -⟩ := References.exists_of_find? hf
      rw [References.hasFootnotes, Bool.not_eq_true', List.isEmpty_eq_false_iff]
      exact List.ne_nil_of_mem he
    have hvalue := Report.value_of_answer hanswer
    refine ⟨_, hvalue ▸ endsInSection_render hfootnotes _, ?_, fun hx => ?_⟩
    · exact List.mem_map.mpr ⟨f, hmem, by rw [hid]⟩
    · exact List.mem_map.mpr ⟨f, hmem, by rw [hid, Html.escape_eq_self_iff.mpr hx]⟩
  · exact fun id hne hid => answer_noteDocument c r hne hid

/-- An identifier of a letter and a digit with a space between them. -/
theorem anchors_lead_to_items_spaced :
    let id := "a 1".toList
    let rendered := renderMarkdown {} .builtin .empty (.string (noteDocument id))
    (id ≠ [] ∧ ∀ d ∈ id, isIdChar d = true ∧ Html.isReserved d = false) ∧
      WritesAnchor rendered.2 (referenceText id) id 1 ∧
      rendered.1.answer = .ok (element "p" ('x' :: footnoteAnchor id 1) ++
        '\n' :: notesSection [(id, "note".toList)]) ∧
      ∃ html ids, rendered.1.answer = .ok html ∧ EndsInSection html ids ∧ id ∈ ids := by
  intro id rendered
  have hall : id.all (fun d => isIdChar d && !Html.isReserved d) = true := by decide
  have hid : ∀ d ∈ id, isIdChar d = true ∧ Html.isReserved d = false := by
    simpa only [List.all_eq_true, Bool.and_eq_true, Bool.not_eq_true'] using hall
  have hanswer := (anchors_lead_to_items {} .builtin).2 id (by decide) fun d hd => (hid d hd).1
  have hreferences : rendered.2 = noteReferences id :=
    congrArg Prod.snd (tokenize_noteDocument {} (by decide) fun d hd => (hid d hd).1)
  have hanchor : WritesAnchor rendered.2 (referenceText id) id 1 := by
    rw [hreferences]
    decide +kernel
  obtain ⟨ids, hends, -, hmem⟩ := (anchors_lead_to_items {} .builtin).1 _ _ hanswer _ _ _ hanchor
  exact ⟨⟨by decide, hid⟩, hanchor, hanswer, _, ids, hanswer, hends, hmem fun d hd => (hid d hd).2⟩

/-- A reserved character breaks the link: where the reference and the definition are written alike, the
reference is not found; where it is found, its anchor leads nowhere. -/
theorem reserved_character_breaks_link :
    (renderMarkdown {} .builtin .empty (.string "x[^a&b]\n\n[^a&b]: note".toList)).1.answer =
      .ok ("<p>x[^a&amp;b]</p>\n".toList ++ notesSection [("a&amp;b".toList, "note".toList)]) ∧
    (renderMarkdown {} .builtin .empty (.string "x[^a&b]\n\n[^a&amp;b]: note".toList)).1.answer =
      .ok ("<p>x<a href=\"#fn-a&amp;b\" id=\"fnref-a&amp;b\" class=\"footnote-ref\">[1]</a></p>\n".toList ++
        notesSection [("a&amp;amp;b".toList, "note".toList)]) := by
  constructor
  · decide +kernel
  · decide +kernel

end Markdown.Footnotes
