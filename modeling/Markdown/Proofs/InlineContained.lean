import Markdown.Proofs.Undisturbed

/-!
# Inline text keeps its attribute values

The HTML of an inline text can be read tag by tag, with no attribute that the source has written, if
its rules leave the tags alone: `contained_render_of_undisturbed`. The condition cannot be dropped.
A tag with an attribute that is written into a value ends the value at its first double quote, and
what follows is no attribute (`not_contained_of_changesValue`).
-/

namespace Markdown

open Text Html

namespace Inline

/-! ### Line breaks -/

theorem eq_of_step_blank {q : Reader} (h : q.step ' ' = .text ∨ q.step ' ' = .value) :
    q.step ' ' = q := by
  cases q <;> simp_all [Reader.step, isTagChar, isAsciiLetter, isAsciiDigit]

/-- Outside of tags and in values, blanks are skipped; elsewhere at most one is. -/
theorem read_blanks {q : Reader} {spaces : Text} (hspaces : ∀ d ∈ spaces, d = ' ')
    (h : q.read spaces = .text ∨ q.read spaces = .value) : q.read spaces = q := by
  induction spaces generalizing q with
  | nil => rfl
  | cons d spaces ih =>
    obtain rfl := hspaces d (by simp)
    rw [Reader.read_cons] at h ⊢
    have hrest := ih (fun d hd => hspaces d (by simp [hd])) h
    rw [hrest] at h ⊢
    exact eq_of_step_blank h

theorem contained_hardBreaks {t : Text} (h : Contained t) : Contained (hardBreaks t) := by
  obtain ⟨-, -, -, htext, hvalue⟩ := read_lineTexts
  refine contained_replaceBy (fun before c r hit old rest hrule htakes q hq => ?_) h
  obtain ⟨spaces, rest', htakes', hhit, -, hspaces⟩ := hardBreakRule_eq_some hrule
  rw [← htakes.take, htakes'.take] at hq ⊢
  have hall : ∀ d ∈ ' ' :: spaces, d = ' ' := by simpa using hspaces
  have hsplit : q.read (' ' :: (spaces ++ ['\n'])) = (q.read (' ' :: spaces)).step '\n' := by
    rw [← List.cons_append, Reader.read_append]
    rfl
  rw [hsplit] at hq ⊢
  rw [hhit]
  rcases Reader.eq_of_foreign (by decide) hq with ⟨hbefore, hend⟩ | ⟨hbefore, hend⟩
  · obtain rfl : Reader.text = q := hbefore.symm.trans (read_blanks hall (.inl hbefore))
    rw [hend, htext]
  · obtain rfl : Reader.value = q := hbefore.symm.trans (read_blanks hall (.inr hbefore))
    rw [hend, hvalue]

/-! ### Code spans and stand-ins -/

/-- A text that has neither `<` nor a double quote leaves the reader outside of tags or in a value. -/
theorem read_quiet {q : Reader} {t : Text} (hq : q = .text ∨ q = .value) (h : Quiet t) :
    q.read t = q := by
  rcases hq with rfl | rfl
  · exact Reader.read_text h.1
  · exact Reader.read_value h.2

theorem contained_restoreCode {stash : Stash}
    (hstash : ∀ s ∈ stash, ∃ body, Quiet body ∧ s = element "code" body) {t : Text}
    (h : Contained t) : Contained (restoreCode stash t).value := by
  rw [value_restoreCode]
  split
  · exact h
  · refine contained_replaceBy (fun before c r hit old rest hrule htakes q hq => ?_) h
    obtain ⟨digits, rest', htakes', hdigits, hhit⟩ := restoreRule_eq_some hrule
    have hold : old = codeOpen :: (digits ++ [codeClose]) := htakes.take.symm.trans htakes'.take
    rcases hhit with hhit | hhit
    · rw [hhit, hold]
    · obtain ⟨body, hbody, hcode⟩ := hstash _ hhit
      obtain ⟨⟨-, -, hname⟩, -⟩ := isName_spanNames
      have helement : Bare (element "code" body) := bare_element hname hbody.bare
      -- A mark of a code span has no `<` and no double quote.
      have hdigit : ∀ c, isDigit c = false → c ∉ digits := fun c hc hmem => by
        rw [hdigits c hmem] at hc
        cases hc
      have hquiet : Quiet old := by
        rw [hold]
        have hends : Quiet [codeOpen] ∧ Quiet [codeClose] := by
          unfold Quiet
          decide
        exact hends.1.append
          (.append ⟨hdigit '<' rfl, hdigit '"' rfl⟩ hends.2)
      have hplace : q = .text ∨ q = .value := by
        rw [hold] at hq
        have hstep : q.step codeOpen ≠ .broken := fun hbroken => hq (by
          rw [Reader.read_cons, hbroken, Reader.read_broken])
        exact (Reader.eq_of_foreign (by decide) hstep).imp And.left And.left
      rw [read_quiet hplace hquiet, hcode]
      rcases hplace with rfl | rfl
      · exact helement.contained
      · exact Reader.read_value helement.quote

theorem quiet_of_standsFor? {c : Char} {s : Text} (h : standsFor? c = some s) :
    Quiet s ∧ Reader.isForeign c = true := by
  have hescapable : escapable.all (fun s => !s.contains '<' && !s.contains '"') = true := by
    unfold escapable
    repeat rw [String.toList_ofList]
    decide
  unfold standsFor? at h
  split at h
  · next hle =>
    have hs := List.all_eq_true.mp hescapable s (List.mem_of_getElem? h)
    simp only [Bool.and_eq_true, Bool.not_eq_true', List.contains_eq_mem,
      decide_eq_false_iff_not] at hs
    have hlarge : ∀ d : Char, d.toNat < firstStandIn → c ≠ d := by
      rintro d hd rfl
      omega
    have htag : isTagChar c = false := by
      have hnot : ∀ d : Char, d.toNat < firstStandIn → ¬ c ≤ d := fun d hd hcd => by
        have hval : c.toNat ≤ d.toNat := hcd
        omega
      simp [isTagChar, isAsciiLetter, isAsciiDigit, hnot 'z' (by decide), hnot 'Z' (by decide),
        hnot '9' (by decide), hlarge '-' (by decide)]
    refine ⟨hs, ?_⟩
    simp [Reader.isForeign, htag, hlarge '<' (by decide), hlarge '>' (by decide),
      hlarge '/' (by decide), hlarge ' ' (by decide), hlarge '=' (by decide),
      hlarge '"' (by decide)]
  · cases h

theorem contained_revertEscapes {t : Text} (h : Contained t) : Contained (revertEscapes t) := by
  have hread : ∀ q : Reader, q.read t ≠ .broken → q.read (revertEscapes t) = q.read t := by
    clear h
    induction t with
    | nil => exact fun _ _ => rfl
    | cons c t ih =>
      intro q hq
      have hstep : q.step c ≠ .broken := fun hbroken => hq (by
        rw [Reader.read_cons, hbroken, Reader.read_broken])
      have hchar : q.read ((standsFor? c).getD [c]) = q.step c := by
        cases hc : standsFor? c with
        | none => rfl
        | some s =>
          obtain ⟨hs, hforeign⟩ := quiet_of_standsFor? hc
          rcases Reader.eq_of_foreign hforeign hstep with ⟨rfl, hend⟩ | ⟨rfl, hend⟩
          · exact (read_quiet (.inl rfl) hs).trans hend.symm
          · exact (read_quiet (.inr rfl) hs).trans hend.symm
      rw [Reader.read_cons] at hq ⊢
      show q.read ((standsFor? c).getD [c] ++ revertEscapes t) = _
      rw [Reader.read_append, hchar]
      exact ih _ hq
  unfold Contained at *
  rw [hread _ (by rw [h]; simp), h]

/-! ### All rules -/

/-- The text in which links are looked for: its escapes and code spans are put aside, and paired marks
and images are written. -/
def linkSource (t : Text) : Text :=
  replaceBy imageRule (decorations (emphasis (protectCode [] (protectEscapes (escape t))).1))

/-- From the links on, each rule leaves the tags alone: its matches that are replaced begin outside of
tags and no double quote of them goes into an attribute. -/
def Undisturbed (s : References) (t : Text) : Prop :=
  undisturbedBy (stages s) (linkSource t) = true

instance (s : References) (t : Text) : Decidable (Undisturbed s t) :=
  inferInstanceAs (Decidable (undisturbedBy (stages s) (linkSource t) = true))

theorem contained_linkSource (t : Text) : Contained (linkSource t) := by
  have hsource := (quiet_protectCode (quiet_protectEscapes (quiet_escape t))).1
  exact contained_images (bare_applyRules keepsBare_decorationRules
    (bare_applyRules keepsBare_emphasisRules hsource.bare))

/-! ### Matches in values -/

/-- A stage replaces a match that begins in the value of an attribute; its matches in front of it leave
the tags alone. -/
def Stage.ChangesValue (g : Stage) (t : Text) : Prop :=
  ∃ ps p rest html, g.pieces t = ps ++ p :: rest ∧ allLeaveTags g.values .text ps = true ∧
    Reader.text.read (source ps) = .value ∧ p.label = some html ∧ html ≠ p.text

/-- A match that begins in a value spoils the text if its replacement does: whatever the rule does
behind the match, the text cannot be read any more. -/
theorem not_contained_of_match_in_value {g : Stage} (hg : g.Sound) {t : Text}
    {ps rest : List (Segment (Option Text))} {p : Segment (Option Text)} {html : Text}
    (hpieces : g.pieces t = ps ++ p :: rest) (hps : allLeaveTags g.values .text ps = true)
    (hvalue : Reader.text.read (source ps) = .value) (hlabel : p.label = some html)
    (hhtml : Reader.value.read html = .broken) : ¬ Contained (written (g.pieces t)) := by
  have hmem : ∀ p' ∈ ps, p' ∈ g.pieces t := fun p' hp' => by simp [hpieces, hp']
  have hbefore := (rereads_of_allLeaveTags (fun p' hp' => hg.read t p' (hmem p' hp'))
    (by rw [hvalue]; simp) hps).read_written
  intro hcontained
  unfold Contained at hcontained
  rw [hpieces, written_append, written_cons, hlabel, Reader.read_append, Reader.read_append, hbefore,
    hvalue, Option.getD_some, hhtml, Reader.read_broken] at hcontained
  cases hcontained

/-- In a value, an anchor ends the value, and its address is no attribute. An address that reads like
the rest of a tag could pass, as ` onclick=` does in front of a double quote. -/
theorem read_value_anchor {url label : Text} {title : Option Text}
    (hurl : Reader.closed.read url = .broken) :
    Reader.value.read (anchor url title label) = .broken := by
  have hopen : Reader.value.read "<a href=\"".toList = .closed := by
    rw [String.toList_ofList]
    rfl
  unfold anchor
  simp only [Reader.read_append, hopen, hurl, Reader.read_broken]

theorem read_value_footnoteAnchor (id : Text) (index : Nat) :
    Reader.value.read (footnoteAnchor id index) = .broken := by
  have hopen : Reader.value.read "<a href=\"#fn-".toList = .broken := by
    rw [String.toList_ofList]
    rfl
  unfold footnoteAnchor
  simp only [Reader.read_append, hopen, Reader.read_broken]

theorem read_value_colorPreview (color : Text) :
    Reader.value.read (colorPreview color) = .broken := by
  have hopen : Reader.value.read
      "<span class=\"color-preview\"><span class=\"color-swatch\" style=\"background-color: ".toList =
        .broken := by
    rw [String.toList_ofList]
    rfl
  unfold colorPreview
  simp only [Reader.read_append, hopen, Reader.read_broken]

/-- Where a rule for links in angle brackets, footnotes or colours changes a text in a value, the
value is cut: what these rules write into attributes never reads like the rest of a tag. -/
theorem not_contained_of_changesValue {s : References} {g : Stage} (hg : g ∈ (stages s).drop 3)
    {t : Text} (h : g.ChangesValue t) : ¬ Contained (written (g.pieces t)) := by
  obtain ⟨ps, p, rest, html, hpieces, hps, hvalue, hlabel, hne⟩ := h
  have hp : p ∈ g.pieces t := by simp [hpieces]
  refine not_contained_of_match_in_value (sound_stages s g (List.mem_of_mem_drop hg)) hpieces hps
    hvalue hlabel ?_
  simp only [stages, List.drop_succ_cons, List.drop_zero, List.mem_cons, List.not_mem_nil,
    or_false] at hg
  rcases hg with rfl | rfl | rfl | rfl
  · obtain ⟨before, c, r, hit, rest', hrule, -, rfl⟩ := exists_hit_of_mem_pieces hp hlabel
    obtain ⟨o, scheme, body, b, rest'', -, -, hscheme, -, htext, -⟩ := urlRule_eq_some hrule
    have hschemes : schemes.all (fun s => decide (Reader.closed.read s = .broken)) = true := by
      unfold schemes
      repeat rw [String.toList_ofList]
      rfl
    rw [htext]
    refine read_value_anchor ?_
    rw [Reader.read_append, of_decide_eq_true (List.all_eq_true.mp hschemes scheme hscheme),
      Reader.read_broken]
  · obtain ⟨before, c, r, hit, rest', hrule, -, rfl⟩ := exists_hit_of_mem_pieces hp hlabel
    obtain ⟨o, user, domain, b, rest'', -, -, -, htext, -⟩ := mailRule_eq_some hrule
    have hscheme : Reader.closed.read "mailto:".toList = .broken := by
      rw [String.toList_ofList]
      rfl
    rw [htext]
    refine read_value_anchor ?_
    rw [Reader.read_append, hscheme, Reader.read_broken]
  · obtain ⟨before, c, r, hit, rest', hrule, htakes, rfl⟩ := exists_hit_of_mem_pieces hp hlabel
    obtain ⟨id, rest'', htakes', -, htext | ⟨f, -, htext⟩⟩ := footnoteRule_eq_some hrule
    · exact absurd (by rw [htext, ← htakes.take, htakes'.take]) hne
    · rw [htext]
      exact read_value_footnoteAnchor id f.index
  · obtain ⟨digits, -, htext, -⟩ := exists_color_of_mem_colorPieces hp hlabel
    rw [htext]
    exact read_value_colorPreview _

/-! ### All rules together -/

/-- **Attribute values stay whole.** When sanitizing, the HTML of an inline text whose tags are not
disturbed can be read tag by tag: each attribute is one of the renderer's, and its value goes on to
the double quote that the renderer has written. The condition is needed: where one of the last rules,
those for links in angle brackets, footnotes and colours, changes a text in a value, what it leaves
cannot be read in this way. -/
theorem contained_render_of_undisturbed (s : References) :
    (∀ t, Undisturbed s t → Contained (render s true t).value) ∧
      ∀ g ∈ (stages s).drop 3, ∀ t, g.ChangesValue t → ¬ Contained (written (g.pieces t)) := by
  refine ⟨fun t h => ?_, fun g hg t h => not_contained_of_changesValue hg h⟩
  have hstash := (quiet_protectCode (quiet_protectEscapes (quiet_escape t))).2
  have hrun : Contained (runStages (stages s) (linkSource t)) :=
    contained_runStages (sound_stages s) (contained_linkSource t) h
  rw [value_render, if_pos rfl]
  dsimp only
  rw [markUp_eq_runStages]
  exact contained_revertEscapes (contained_restoreCode hstash (contained_hardBreaks hrun))

/-- The tag of an image in whose text a colour stands behind emphasis. -/
def coloredImage : Text := "<img src=\"b\" alt=\"<em>a</em> #fff\" />".toList

theorem changesValue_coloredImage : Stage.ChangesValue ⟨colorPieces, id⟩ coloredImage := by
  let color : Segment (Option Text) := ⟨some (colorPreview "#fff".toList), "#fff".toList⟩
  have hpieces : colorPieces coloredImage =
      (colorPieces coloredImage).take 4 ++ color :: (colorPieces coloredImage).drop 5 := by
    decide +kernel
  exact ⟨_, _, _, _, hpieces, by decide +kernel, by decide +kernel, rfl, by decide +kernel⟩

/-- A reference to an image, a link with a title and a colour; the address of the reference has a
double quote. The preview of a colour in the text of an image cuts the text. -/
theorem contained_render_of_undisturbed_image_in_link :
    let s := References.empty.setLink ['r'] ['u', '"'] none
    let t := "[![*a*](c)][r] [d](e \"f\") #fff".toList
    (Undisturbed s t ∧ Contained (render s true t).value) ∧
      Stage.ChangesValue ⟨colorPieces, id⟩ coloredImage ∧
        ¬ Contained (written (colorPieces coloredImage)) := by
  have h : Undisturbed (References.empty.setLink ['r'] ['u', '"'] none)
      "[![*a*](c)][r] [d](e \"f\") #fff".toList := by
    decide +kernel
  obtain ⟨hwhole, hcut⟩ :=
    contained_render_of_undisturbed (References.empty.setLink ['r'] ['u', '"'] none)
  exact ⟨⟨h, hwhole _ h⟩, changesValue_coloredImage,
    hcut ⟨colorPieces, id⟩ (by simp [stages]) _ changesValue_coloredImage⟩

/-- A colour behind emphasis in the text of an image ends the value of `alt`. -/
theorem not_contained_render_color_in_alt :
    ¬ Contained (render .empty true "![*a* #fff](b)".toList).value := by
  decide +kernel

end Inline

end Markdown
