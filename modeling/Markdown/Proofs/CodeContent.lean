import Markdown.Proofs.Literal
import Markdown.Proofs.Opaque

/-!
# The content of a code span

Escapes are protected before code spans are looked for, and come back as bare marks when the spans have
been written. So a code span shows its content without the backslashes that escape something, as any
other text does, and no rule changes anything else in it. A backslash at the end of the content escapes
the backtick behind it: then there is no code span. `render_code` puts this together.
-/

namespace Markdown.Inline

open Text Canonical

variable {t c : Text}

/-! ### Escapes in a text -/

theorem length_withoutEscapes_le (t : Text) : (withoutEscapes t).length ≤ t.length := by
  induction t with
  | nil => exact Nat.le_refl 0
  | cons c r ih =>
    rw [withoutEscapes]
    split
    · exact Nat.le_succ_of_le ih
    · exact Nat.succ_le_succ ih

/-- Exactly a text without escapes is the same without them. -/
theorem withoutEscapes_eq_self_iff :
    withoutEscapes t = t ↔ ∀ d ∈ escapableChars, ¬ ['\\', d] <:+: t := by
  induction t with
  | nil => simp [withoutEscapes]
  | cons c r ih =>
    by_cases hescape : c = '\\' ∧ ∃ d ∈ escapableChars, r.head? = some d
    · obtain ⟨rfl, d, hd, hr⟩ := hescape
      obtain ⟨r, rfl⟩ := List.head?_eq_some_iff.mp hr
      constructor
      · intro heq
        have hlength := congrArg List.length heq
        have hle := length_withoutEscapes_le r
        rw [withoutEscapes_escape hd] at hlength
        simp only [List.length_cons] at hlength
        omega
      · exact fun hnone => absurd ⟨[], r, rfl⟩ (hnone d hd)
    · have hcons : withoutEscapes (c :: r) = c :: withoutEscapes r :=
        withoutEscapes_cons fun hc d hd hmem => hescape ⟨hc, d, hmem, hd⟩
      rw [hcons, List.cons.injEq, eq_self_iff_true, true_and, ih]
      refine forall₂_congr fun d hd => not_congr ?_
      rw [List.infix_cons_iff, or_iff_right]
      intro hprefix
      obtain ⟨rfl, r, rfl⟩ := List.cons_prefix_cons.mp hprefix
      exact hescape ⟨rfl, d, hd, rfl⟩

/-- An escapable character that is read as it is has no backslash in front of it. -/
theorem exists_append_of_plain_mem {d : Char} (hd : d ∈ escapableChars) (h : .plain d ∈ glyphs t) :
    ∃ x y, t = x ++ d :: y ∧ x.getLast? ≠ some '\\' := by
  induction t using glyphs.induct with
  | case1 =>
    rw [glyphs] at h
    cases h
  | case2 c r n hn ih =>
    obtain ⟨rfl, hr⟩ := escapeAt?_eq_some hn
    rw [glyphs_escaped hn, List.mem_cons] at h
    obtain ⟨x, y, hxy, hlast⟩ := ih (h.resolve_left (by simp))
    refine ⟨'\\' :: escapableChars[n] :: x, y, ?_, ?_⟩
    · rw [hr, hxy]
      rfl
    · have hne : escapableChars[n] ≠ '\\' :=
        ne_of_mem_of_not_mem (List.getElem_mem n.isLt) (by decide)
      cases hx : x.getLast? with
      | none => simpa [List.getLast?_cons, hx] using hne
      | some z => simpa [List.getLast?_cons, hx] using hlast
  | case3 c r hn ih =>
    rw [glyphs_plain hn, List.mem_cons] at h
    rcases h with h | h
    · obtain rfl := Glyph.plain.inj h
      exact ⟨[], r, rfl, by simp⟩
    · obtain ⟨x, y, rfl, hlast⟩ := ih h
      refine ⟨c :: x, y, rfl, ?_⟩
      rcases List.eq_nil_or_concat x with rfl | ⟨x, z, rfl⟩
      · rintro heq
        obtain rfl : c = '\\' := by simpa using heq
        exact not_mem_of_escapeAt?_eq_none hn hd
      · simpa [List.getLast?_cons] using hlast

/-! ### The span of a whole text -/

/-- The mark of a code span is a plain text for all rules. -/
theorem markUp_codeMark (s : References) (sanitize : Bool) : markUp s sanitize (codeMark 0) = codeMark 0 := by
  have hchars : ∀ p : Char → Bool, (codeMark 0).all p = true → ∀ c ∈ codeMark 0, p c = true :=
    fun p => List.all_eq_true.mp
  exact markUp_of_isInert s sanitize (hchars _ (by decide))
    ((idle_urlRule (p := (· ≠ ':')) (by decide)).replaceBy (hchars _ (by decide)))
    (colorRule_of_no_hash (by decide))
    ((idle_hardBreakRule (p := (· ≠ '\n')) (by decide)).replaceBy (hchars _ (by decide)))

theorem restoreCode_codeMark (k : Text) : restoreCode [k] (codeMark 0) = pure k := by
  have hdigits : ['0', codeClose].takeWhile isDigit = ['0'] := by
    have hzero : isDigit '0' = true := by decide
    rw [List.takeWhile_cons_of_pos hzero, List.takeWhile_cons_of_neg (by simp [isDigit_codeClose])]
  have hnumber : codeNumber? codeOpen ['0', codeClose] = some ['0'] := by
    simp [codeNumber?, hdigits]
  have hstep : codeMarkStep () codeOpen ['0', codeClose] = ⟨2, some ['0'], ()⟩ := by
    rw [codeMarkStep, hnumber]
    rfl
  have hmark : segment codeMarkStep () (codeMark 0) = [⟨some ['0'], codeMark 0⟩] := by
    show segment codeMarkStep () (codeOpen :: ['0', codeClose]) = _
    rw [segment_cons, hstep]
    show ⟨some ['0'], codeMark 0⟩ :: segment codeMarkStep () [] = _
    rw [segment_nil]
  unfold restoreCode
  rw [hmark]
  have hspan : unstash [k] ⟨some ['0'], codeMark 0⟩ = pure k := rfl
  simp [hspan]

/-- A code span that is the whole text is shown with what the rules read as its content. -/
theorem render_of_codeSpan (s : References) {k : Text} (hne : k ≠ []) (hk : '\x60' ∉ k)
    (ht : protectEscapes (Html.escape t) = '\x60' :: (k ++ ['\x60'])) :
    render s true t = pure (revertEscapes (element "code" k)) := by
  have hread : protectEscapes (if true then Html.escape t else t) = '\x60' :: (k ++ ['\x60']) := ht
  have hstash : protectCode [] ('\x60' :: (k ++ ['\x60'])) = (codeMark 0, [element "code" k]) := by
    rw [protectCode, stashSpans_codeSpan hne hk, segment_nil]
    rfl
  rw [render, hread, hstash]
  show restoreCode [element "code" k] (markUp s true (codeMark 0)) >>= _ = _
  rw [markUp_codeMark, restoreCode_codeMark, pure_bind]

theorem shielded_ne_nil (h : t ≠ []) : shielded t ≠ [] := by
  obtain ⟨c, r, rfl⟩ := List.exists_cons_of_ne_nil h
  cases hescape : escapeAt? c r with
  | some n =>
    rw [shielded, glyphs_escaped hescape]
    exact List.cons_ne_nil _ _
  | none =>
    rw [shielded, glyphs_plain hescape, List.flatMap_cons]
    refine List.append_ne_nil_of_left_ne_nil ?_ _
    rcases Html.escapeChar_eq_or c with hc | ⟨s, hc⟩ <;> simp [Glyph.shielded, hc]

theorem revertEscapes_code (k : Text) :
    revertEscapes (element "code" k) = element "code" (revertEscapes k) := by
  have hopening : revertEscapes "<code>".toList = "<code>".toList :=
    revertEscapes_of_isAscii (forall_mem_of_all (by decide))
  have hclosing : revertEscapes "</code>".toList = "</code>".toList :=
    revertEscapes_of_isAscii (forall_mem_of_all (by decide))
  have helement : ∀ t, element "code" t = "<code>".toList ++ (t ++ "</code>".toList) := fun _ => rfl
  rw [helement, helement, revertEscapes, List.flatMap_append, List.flatMap_append, ← revertEscapes,
    ← revertEscapes, ← revertEscapes, hopening, hclosing]

/-- A text between two backticks is a code span unless its last character is a backslash. -/
theorem render_codeSpan_content (s : References) (hne : c ≠ []) (hc : '\x60' ∉ c)
    (hstandIns : ∀ d ∈ c, d.toNat < 0xe000 ∨ 0xe00d < d.toNat) (hend : c.getLast? ≠ some '\\') :
    render s true ('\x60' :: (c ++ ['\x60'])) =
      pure (element "code" (Html.escape (withoutEscapes c))) := by
  have hescape : Html.escape ('\x60' :: (c ++ ['\x60'])) = '\x60' :: (Html.escape c ++ ['\x60']) := by
    have hbacktick : Html.escapeChar '\x60' = ['\x60'] := rfl
    simp [hbacktick]
  have hread : protectEscapes (Html.escape ('\x60' :: (c ++ ['\x60']))) =
      '\x60' :: (shielded c ++ ['\x60']) := by
    have hclosing := protectEscapes_backtick (Html.getLast?_escape (by decide) hend) []
    have hopening := @protectEscapes_backtick [] (by simp) (Html.escape c ++ ['\x60'])
    rw [protectEscapes_nil, List.nil_append, List.nil_append] at hopening
    rw [hescape, hopening, hclosing, protectEscapes_nil, protectEscapes_escape]
  have hspan : '\x60' ∉ shielded c := by
    rw [← protectEscapes_escape]
    exact backtick_notMem_protectEscapes (Html.not_mem_escape_of_not_mem (by decide) hc)
  rw [render_of_codeSpan s (shielded_ne_nil hne) hspan hread, revertEscapes_code,
    revertEscapes_shielded hstandIns]

/-! ### An escaped backtick behind the content -/

/-- A character at the start stays if the rule passes over it. -/
theorem exists_replaceBy {c : Char} {rule : Rule} (h : rule.PassesOver c) (t : Text) :
    ∃ u, replaceBy rule (c :: t) = c :: u :=
  ⟨_, replaceFrom_cons_none (h none t)⟩

theorem passesOver_longSpan {mark : Text} {c : Char} (words : Bool) (wrap : Text → Text)
    (h : mark.head?.any (· ≠ c) = true) : (longSpan mark words wrap).PassesOver c := by
  intro before r
  by_contra hhit
  obtain ⟨hit, hhit⟩ := Option.ne_none_iff_exists'.mp hhit
  obtain ⟨d, hd, hne⟩ := (Option.any_eq_true _ _).mp h
  obtain ⟨m, rfl⟩ := List.head?_eq_some_iff.mp hd
  obtain ⟨inner, rest, htakes, -⟩ := longSpan_eq_some (List.cons_ne_nil d m) hhit
  have hsplit := htakes.split
  simp only [List.cons_append, List.cons.injEq] at hsplit
  exact of_decide_eq_true hne hsplit.1.symm

theorem passesOver_shortSpan {c : Char} (s : SpanStyle) (wrap : Text → Text) (h : s.mark ≠ c) :
    (shortSpan s wrap).PassesOver c := fun before r => by
  rw [shortSpan, if_neg (by simp [h.symm])]

theorem exists_applyRules {rules : List Rule} {c : Char} (h : ∀ rule ∈ rules, rule.PassesOver c)
    (t : Text) : ∃ u, applyRules rules (c :: t) = c :: u := by
  induction rules generalizing t with
  | nil => exact ⟨t, rfl⟩
  | cons rule rules ih =>
    obtain ⟨hrule, hrules⟩ := List.forall_mem_cons.mp h
    obtain ⟨u, hu⟩ := exists_replaceBy hrule t
    rw [applyRules, List.foldl_cons, hu]
    exact ih hrules u

theorem exists_colorPreviews {c : Char} (hc : c ≠ '<') (h : colorRule.PassesOver c) (t : Text) :
    ∃ u, colorPreviews (c :: t) = c :: u := by
  -- The text up to the first tag is the first part.
  obtain ⟨n, hstep⟩ : ∃ n, Html.partStep () c t = ⟨n, .text, ()⟩ := ⟨_, Html.partStep_of_ne hc t⟩
  have hplain : Text.startsWith (c :: t.take n) ['<'] = false := by
    simp [Text.startsWith, List.isPrefixOf, hc.symm]
  obtain ⟨u, hu⟩ := exists_replaceBy h (t.take n)
  refine ⟨u ++ colorPreviews (t.drop n), ?_⟩
  rw [colorPreviews, Html.mapTexts, Html.parts, segment_cons, hstep, List.flatMap_cons]
  dsimp only
  rw [hplain, if_neg Bool.false_ne_true, hu]
  rfl

/-- No rule applies at a backtick that starts a text. -/
theorem exists_markUp_backtick (s : References) (sanitize : Bool) (t : Text) :
    ∃ u, markUp s sanitize ('\x60' :: t) = '\x60' :: u := by
  have hemphasis : ∀ rule ∈ emphasisRules, rule.PassesOver '\x60' := by
    simp only [emphasisRules, List.forall_mem_cons]
    exact ⟨passesOver_longSpan _ _ (by decide), passesOver_longSpan _ _ (by decide),
      passesOver_longSpan _ _ (by decide), passesOver_longSpan _ _ (by decide),
      passesOver_shortSpan _ _ (by decide), passesOver_shortSpan _ _ (by decide), by simp⟩
  have hdecorations : ∀ rule ∈ decorationRules, rule.PassesOver '\x60' := by
    simp only [decorationRules, List.forall_mem_cons]
    exact ⟨passesOver_longSpan _ _ (by decide), passesOver_longSpan _ _ (by decide),
      passesOver_shortSpan _ _ (by decide), passesOver_shortSpan _ _ (by decide), by simp⟩
  have himages : imageRule.PassesOver '\x60' := fun _ _ => rfl
  have hlinks : linkRule.PassesOver '\x60' := fun _ _ => rfl
  have hfull : (fullReferenceRule s sanitize).PassesOver '\x60' := fun _ _ => rfl
  have hshortcuts : (shortcutRule s sanitize).PassesOver '\x60' := fun _ _ => rfl
  have hurls : urlRule.PassesOver '\x60' := fun _ _ => rfl
  have hmail : mailRule.PassesOver '\x60' := fun _ _ => rfl
  have hfootnotes : (footnoteRule s).PassesOver '\x60' := fun _ _ => rfl
  have hcolors : colorRule.PassesOver '\x60' := fun _ _ => rfl
  have hbreaks : hardBreakRule.PassesOver '\x60' := fun _ _ => rfl
  obtain ⟨t, ht⟩ := exists_applyRules hemphasis t
  rw [markUp, emphasis, ht]
  obtain ⟨t, ht⟩ := exists_applyRules hdecorations t
  rw [decorations, ht]
  obtain ⟨t, ht⟩ := exists_replaceBy himages t
  rw [imagesAndLinks, ht]
  obtain ⟨t, ht⟩ := exists_replaceBy hlinks t
  rw [ht]
  obtain ⟨t, ht⟩ := exists_replaceBy hfull t
  rw [references, ht]
  obtain ⟨t, ht⟩ := exists_replaceBy hshortcuts t
  rw [ht]
  obtain ⟨t, ht⟩ := exists_replaceBy hurls t
  rw [autolinks, ht]
  obtain ⟨t, ht⟩ := exists_replaceBy hmail t
  rw [ht]
  obtain ⟨t, ht⟩ := exists_replaceBy hfootnotes t
  rw [footnotes, ht]
  obtain ⟨t, ht⟩ := exists_colorPreviews (by decide) hcolors t
  rw [ht]
  exact exists_replaceBy hbreaks t

/-- Behind a backslash the closing backtick is escaped. -/
theorem backtick_notMem_shielded (hc : '\x60' ∉ c) (hend : c.getLast? = some '\\') :
    '\x60' ∉ shielded (c ++ ['\x60']) := by
  intro hmem
  obtain ⟨g, hg, hmem⟩ := List.mem_flatMap.mp hmem
  cases g with
  | escaped n =>
    have hstandIn : ∀ n : Fin escapableChars.length, standIn n ≠ '\x60' := by decide
    exact hstandIn n (List.mem_singleton.mp hmem).symm
  | plain d =>
    obtain rfl : '\x60' = d := (Html.eq_or_mem_of_mem_escapeChar hmem).resolve_right (by decide)
    obtain ⟨x, y, hsplit, hlast⟩ := exists_append_of_plain_mem (by decide) hg
    rcases List.eq_nil_or_concat y with rfl | ⟨y, z, rfl⟩
    · exact hlast (List.append_cancel_right hsplit ▸ hend)
    · rw [List.concat_eq_append, ← List.cons_append, ← List.append_assoc] at hsplit
      obtain ⟨rfl, -⟩ := List.append_inj' hsplit rfl
      simp at hc

/-- A backtick without another one opens no code span. -/
theorem protectCode_of_open (h : '\x60' ∉ t) : protectCode [] ('\x60' :: t) = ('\x60' :: t, []) := by
  have hnone : codeSpan? '\x60' t = none := by
    by_contra hspan
    obtain ⟨body, hbody⟩ := Option.ne_none_iff_exists'.mp hspan
    obtain ⟨rest, hsplit, -⟩ := codeSpan?_eq_some hbody
    have hrest : t = body ++ '\x60' :: rest := by simpa using hsplit
    simp [hrest] at h
  have hstep : codeStep () '\x60' t = ⟨0, none, ()⟩ := by rw [codeStep, hnone]
  have hspans := stashSpans_append_of_not_mem h 0 []
  simp only [List.append_nil, segment_nil, stashSpans] at hspans
  rw [protectCode, segment_cons, hstep]
  simp [stashSpans, hspans]

/-- A backslash at the end of the content escapes the closing backtick: there is no code span. -/
theorem render_openBacktick (s : References) (hc : '\x60' ∉ c) (hend : c.getLast? = some '\\') :
    ∃ u, render s true ('\x60' :: (c ++ ['\x60'])) = pure ('\x60' :: u) := by
  have hread : protectEscapes (if true then Html.escape ('\x60' :: (c ++ ['\x60']))
      else '\x60' :: (c ++ ['\x60'])) = '\x60' :: shielded (c ++ ['\x60']) := by
    show protectEscapes (Html.escape ('\x60' :: (c ++ ['\x60']))) = _
    rw [protectEscapes_escape, shielded, glyphs_plain (if_neg (by decide))]
    rfl
  have hspan : '\x60' ∉ shielded (c ++ ['\x60']) := backtick_notMem_shielded hc hend
  obtain ⟨u, hu⟩ := exists_markUp_backtick s true (shielded (c ++ ['\x60']))
  rw [render, hread, protectCode_of_open hspan]
  refine ⟨revertEscapes u, ?_⟩
  show pure (revertEscapes (markUp s true _)) = _
  rw [hu]
  rfl

/-- An escape that ends behind the content is the one of the closing backtick. -/
theorem infix_backtick_iff {d : Char} :
    ['\\', d] <:+: c ++ ['\x60'] ↔ (c.getLast? = some '\\' ∧ d = '\x60') ∨ ['\\', d] <:+: c := by
  rw [List.infix_concat_iff]
  refine or_congr_left ?_
  constructor
  · rintro ⟨x, hx⟩
    rw [List.append_cons] at hx
    obtain ⟨rfl, hd⟩ := List.append_inj' hx rfl
    exact ⟨List.getLast?_concat, List.head_eq_of_cons_eq hd⟩
  · rintro ⟨hlast, rfl⟩
    obtain ⟨x, rfl⟩ := List.getLast?_eq_some_iff.mp hlast
    exact ⟨x, by simp⟩

/-- **The content of a code span is literal up to escapes.** A text between two backticks is shown as
code, written for HTML without the backslashes that escape something. If its last character is a
backslash, there is no code span: the first backtick stays, since the other one is escaped. So exactly
if no backslash stands in front of a character that it escapes, the closing backtick included, the
content is shown as it is. -/
theorem render_code (s : References) (hne : c ≠ []) (hc : '\x60' ∉ c)
    (hstandIns : ∀ d ∈ c, d.toNat < 0xe000 ∨ 0xe00d < d.toNat) :
    (c.getLast? ≠ some '\\' → render s true ('\x60' :: (c ++ ['\x60'])) =
      pure (element "code" (Html.escape (withoutEscapes c)))) ∧
    (c.getLast? = some '\\' → ∃ u, render s true ('\x60' :: (c ++ ['\x60'])) = pure ('\x60' :: u)) ∧
    (render s true ('\x60' :: (c ++ ['\x60'])) = pure (element "code" (Html.escape c)) ↔
      ∀ d ∈ escapableChars, ¬ ['\\', d] <:+: c ++ ['\x60']) := by
  refine ⟨render_codeSpan_content s hne hc hstandIns, render_openBacktick s hc, ?_⟩
  by_cases hend : c.getLast? = some '\\'
  · obtain ⟨u, hu⟩ := render_openBacktick s hc hend
    refine iff_of_false (fun hspan => ?_) fun hnone => ?_
    · have hhead := congrArg (List.head? ∘ Report.value) (hu.symm.trans hspan)
      exact absurd hhead (by simp [element])
    · exact hnone '\x60' (by decide) (infix_backtick_iff.mpr (.inl ⟨hend, rfl⟩))
  · have hplaces : ∀ d, ['\\', d] <:+: c ++ ['\x60'] ↔ ['\\', d] <:+: c := by
      simp [infix_backtick_iff, hend]
    simp only [hplaces]
    rw [render_codeSpan_content s hne hc hstandIns hend, ← withoutEscapes_eq_self_iff]
    constructor
    · intro heq
      have hvalue : element "code" (Html.escape (withoutEscapes c)) = element "code" (Html.escape c) :=
        congrArg Report.value heq
      exact Html.escape_inj.mp (element_inj.mp hvalue)
    · exact fun heq => by rw [heq]

/-- Some backslashes that escape something and one that does not, and characters with a meaning in HTML. -/
theorem render_code_escapes :
    let c := "a\\*b\\\\<\\> & \\n".toList
    (c ≠ [] ∧ '\x60' ∉ c ∧ (∀ d ∈ c, d.toNat < 0xe000 ∨ 0xe00d < d.toNat) ∧ c.getLast? ≠ some '\\') ∧
      render .empty true ('\x60' :: (c ++ ['\x60'])) =
        pure "<code>a*b\\\\&lt;&gt; &amp; \\n</code>".toList := by
  intro c
  have hshown : element "code" (Html.escape (withoutEscapes c)) =
      "<code>a*b\\\\&lt;&gt; &amp; \\n</code>".toList := by decide
  have hstandIns : ∀ d ∈ c, d.toNat < 0xe000 ∨ 0xe00d < d.toNat := noStandIn_of_ascii (by decide)
  have hspan := (render_code .empty (c := c) (by decide) (by decide) hstandIns).1 (by decide)
  exact ⟨⟨by decide, by decide, hstandIns, by decide⟩, hshown ▸ hspan⟩

/-- An escaped star is shown as the star. -/
theorem not_render_code :
    ¬ ∀ c : Text, c ≠ [] → '\x60' ∉ c →
      (∀ d ∈ c, (d.toNat < 0xe000 ∨ 0xe00d < d.toNat) ∧ d ≠ codeOpen ∧ d ≠ codeClose) →
      ∀ s, render s true ('\x60' :: (c ++ ['\x60'])) = pure (element "code" (Html.escape c)) := by
  intro hliteral
  have hstandIns : ∀ d ∈ ['\\', '*'], d.toNat < 0xe000 ∨ 0xe00d < d.toNat :=
    noStandIn_of_ascii (by decide)
  have hmarks : ∀ d ∈ ['\\', '*'], d ≠ codeOpen ∧ d ≠ codeClose := forall_mem_of_all (by decide)
  have hstar := hliteral ['\\', '*'] (by decide) (by decide) (fun d hd => ⟨hstandIns d hd, hmarks d hd⟩)
    .empty
  rw [render_codeSpan_content .empty (by decide) (by decide) hstandIns (by decide)] at hstar
  exact absurd (congrArg Report.value hstar) (by decide)

end Markdown.Inline
