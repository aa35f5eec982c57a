import Markdown.FromHtml.Mark
import Markdown.Proofs.Opaque
import Markdown.Proofs.Plain

/-!
# Literal text

A text whose marks all stand behind backslashes is shown as it is written, without these backslashes:
the rules read a stand-in for each escaped character and the written form for HTML of all others, and
find nothing in them (`render_literal`).

Markdown made from HTML puts a backslash before each character with a meaning. Reading it again takes
back those before characters that can be escaped in an inline text; the others stay
(`render_escape_markdown`).
-/

namespace Markdown.Inline

open Text Canonical

variable {t w : Text} {c : Char}

/-! ### Glyphs -/

/-- The characters that a backslash escapes, in the order of their stand-ins. -/
def escapableChars : Text :=
  "*_~\x60[]#>-+.!=^".toList

theorem escapable_eq_map : escapable = escapableChars.map Html.escapeChar := by
  unfold escapable escapableChars
  repeat rw [String.toList_ofList]
  rfl

/-- What a character of a text is read as. -/
inductive Glyph
  /-- A character as it is. -/
  | plain (c : Char)
  /-- The escapable character with the given number, behind a backslash. -/
  | escaped (n : Fin escapableChars.length)

/-- How it is written in the text. -/
def Glyph.source : Glyph → Text
  | plain c => [c]
  | escaped n => ['\\', escapableChars[n]]

/-- The character that is shown. -/
def Glyph.char : Glyph → Char
  | plain c => c
  | escaped n => escapableChars[n]

/-- What the rules get to read. -/
def Glyph.shielded : Glyph → Text
  | plain c => Html.escapeChar c
  | escaped n => [standIn n]

/-- The escape that starts at a character. -/
def escapeAt? (c : Char) (r : Text) : Option (Fin escapableChars.length) :=
  if c = '\\' then r.head?.bind escapableChars.finIdxOf? else none

/-- The glyphs of a text. -/
def glyphs : Text → List Glyph
  | [] => []
  | c :: r =>
    match escapeAt? c r with
    | some n => .escaped n :: glyphs r.tail
    | none => .plain c :: glyphs r
termination_by t => t.length
decreasing_by all_goals (simp only [List.length_tail, List.length_cons]; omega)

/-- What the rules get to read of a text that has been written for HTML. -/
def shielded (t : Text) : Text :=
  (glyphs t).flatMap Glyph.shielded

theorem glyphs_escaped {r : Text} {n : Fin escapableChars.length} (h : escapeAt? c r = some n) :
    glyphs (c :: r) = .escaped n :: glyphs r.tail := by
  rw [glyphs, h]

theorem glyphs_plain {r : Text} (h : escapeAt? c r = none) :
    glyphs (c :: r) = .plain c :: glyphs r := by
  rw [glyphs, h]

theorem escapeAt?_eq_some {r : Text} {n : Fin escapableChars.length} (h : escapeAt? c r = some n) :
    c = '\\' ∧ r = escapableChars[n] :: r.tail := by
  obtain ⟨hc, h⟩ := Option.ite_none_right_eq_some.mp h
  obtain ⟨d, hd, h⟩ := Option.bind_eq_some_iff.mp h
  obtain ⟨r, rfl⟩ := List.head?_eq_some_iff.mp hd
  obtain ⟨hn, -⟩ := List.finIdxOf?_eq_some_iff.mp h
  exact ⟨hc, by rw [Fin.getElem_fin, ← hn]; rfl⟩

theorem not_mem_of_escapeAt?_eq_none {d : Char} {r : Text} (h : escapeAt? '\\' (d :: r) = none) :
    d ∉ escapableChars := by
  rw [escapeAt?, if_pos rfl] at h
  exact List.finIdxOf?_eq_none_iff.mp h

/-- The glyphs are the whole text. -/
theorem flatMap_source_glyphs (t : Text) : (glyphs t).flatMap Glyph.source = t := by
  induction t using glyphs.induct with
  | case1 => rw [glyphs]; rfl
  | case2 c r n hn ih =>
    obtain ⟨rfl, hr⟩ := escapeAt?_eq_some hn
    rw [glyphs_escaped hn, List.flatMap_cons, ih]
    nth_rewrite 2 [hr]
    rfl
  | case3 c r hn ih => rw [glyphs_plain hn, List.flatMap_cons, ih]; rfl

theorem mem_of_plain_mem (h : .plain c ∈ glyphs t) : c ∈ t := by
  rw [← flatMap_source_glyphs t]
  exact List.mem_flatMap.mpr ⟨_, h, List.mem_singleton_self c⟩

/-! ### Protecting escapes -/

theorem findIdx?_escapable (r : Text) :
    escapable.findIdx? (fun s => s.isPrefixOf (Html.escape r)) =
      (r.head?.bind escapableChars.finIdxOf?).map Fin.val := by
  rw [escapable_eq_map, List.findIdx?_map]
  cases r with
  | nil => rfl
  | cons d r =>
    have hstarts : ∀ e ∈ escapableChars,
        ((fun s : Text => s.isPrefixOf (Html.escape (d :: r))) ∘ Html.escapeChar) e = (e == d) :=
      fun e _ => Html.isPrefixOf_escapeChar e d (Html.escape r)
    rw [findIdx?_congr hstarts]
    exact List.idxOf?_eq_map_finIdxOf?_val

theorem escapeRule_escape (c : Char) (r : Text) :
    escapeRule none c (Html.escape r) = (escapeAt? c r).map fun n =>
      ⟨(Html.escapeChar escapableChars[n]).length, [standIn n]⟩ := by
  unfold escapeRule escapeAt?
  split
  · rw [findIdx?_escapable]
    cases r.head?.bind escapableChars.finIdxOf? with
    | none => rfl
    | some n => simp [escapable_eq_map]
  · rfl

/-- The rules read the glyphs of a text. -/
theorem protectEscapes_escape (t : Text) : protectEscapes (Html.escape t) = shielded t := by
  induction t using glyphs.induct with
  | case1 => rw [shielded, glyphs]; exact protectEscapes_nil
  | case2 c r n hn ih =>
    have hrule := escapeRule_escape c r
    obtain ⟨rfl, hr⟩ := escapeAt?_eq_some hn
    rw [hn, Option.map_some] at hrule
    rw [Html.escape_cons, show Html.escapeChar '\\' = ['\\'] from rfl, List.singleton_append,
      protectEscapes_cons_some hrule, shielded, glyphs_escaped hn, List.flatMap_cons, ← shielded, ← ih]
    nth_rewrite 1 [hr]
    rw [Html.escape_cons, List.drop_left]
    rfl
  | case3 c r hn ih =>
    rw [Html.escape_cons, shielded, glyphs_plain hn, List.flatMap_cons, ← shielded, ← ih]
    -- A backslash that escapes nothing stays; other characters are written without backslashes.
    by_cases hc : c = '\\'
    · have hrule := escapeRule_escape c r
      rw [hn, Option.map_none] at hrule
      subst hc
      exact protectEscapes_cons_none hrule
    · refine protectEscapes_append_of_not_mem (fun hmem => ?_) _
      rcases Html.eq_or_mem_of_mem_escapeChar hmem with heq | hmem
      · exact hc heq.symm
      · exact absurd hmem (by decide)

/-! ### What is shown -/

/-- The text without the backslashes in front of escapable characters. -/
def withoutEscapes : Text → Text
  | [] => []
  | c :: r =>
    if c = '\\' && r.head?.any escapableChars.contains then withoutEscapes r
    else c :: withoutEscapes r

theorem withoutEscapes_escape {d : Char} (hd : d ∈ escapableChars) (r : Text) :
    withoutEscapes ('\\' :: d :: r) = d :: withoutEscapes r := by
  have hne : d ≠ '\\' := ne_of_mem_of_not_mem hd (by decide)
  rw [withoutEscapes, if_pos (by simpa using hd), withoutEscapes, if_neg (by simp [hne])]

theorem withoutEscapes_cons {r : Text} (h : c = '\\' → ∀ d ∈ r.head?, d ∉ escapableChars) :
    withoutEscapes (c :: r) = c :: withoutEscapes r := by
  rw [withoutEscapes, if_neg]
  rw [Bool.and_eq_true, decide_eq_true_eq, Option.any_eq_true]
  rintro ⟨hc, d, hd, hmem⟩
  exact h hc d hd (List.contains_iff_mem.mp hmem)

theorem map_char_glyphs (t : Text) : (glyphs t).map Glyph.char = withoutEscapes t := by
  induction t using glyphs.induct with
  | case1 => rw [glyphs]; rfl
  | case2 c r n hn ih =>
    obtain ⟨rfl, hr⟩ := escapeAt?_eq_some hn
    rw [glyphs_escaped hn, List.map_cons, ih]
    nth_rewrite 2 [hr]
    exact (withoutEscapes_escape (List.getElem_mem n.isLt) r.tail).symm
  | case3 c r hn ih =>
    rw [glyphs_plain hn, List.map_cons, ih, withoutEscapes_cons]
    · rfl
    · rintro rfl d hd
      obtain ⟨r, rfl⟩ := List.head?_eq_some_iff.mp hd
      exact not_mem_of_escapeAt?_eq_none hn

theorem revertEscapes_standIn (n : Fin escapableChars.length) :
    revertEscapes [standIn n] = Html.escapeChar escapableChars[n] := by
  revert n
  decide

/-- Each glyph is shown in the written form of its character. -/
theorem revertEscapes_shielded (h : ∀ c ∈ t, c.toNat < 0xe000 ∨ 0xe00d < c.toNat) :
    revertEscapes (shielded t) = Html.escape (withoutEscapes t) := by
  have hglyph : ∀ g ∈ glyphs t, revertEscapes g.shielded = Html.escapeChar g.char := by
    intro g hg
    cases g with
    | escaped n => exact revertEscapes_standIn n
    | plain c =>
      have hc := h c (mem_of_plain_mem hg)
      refine flatMap_eq_self fun d hd => ?_
      have hd : d.toNat < 0xe000 ∨ 0xe00d < d.toNat := by
        rcases Html.eq_or_mem_of_mem_escapeChar hd with rfl | hd
        · exact hc
        · exact noStandIn_of_ascii (t := Html.referenceChars) (by decide) d hd
      rw [standsFor?_eq_none hd]
      rfl
  rw [← map_char_glyphs, shielded, revertEscapes, List.flatMap_assoc, Html.escape, List.flatMap_map]
  exact congrArg List.flatten (List.map_congr_left hglyph)

/-! ### Texts with escaped marks -/

/-- The characters at which the rules find something unless they are escaped. -/
def inlineMarks : Text :=
  "*_~\x60[#=^".toList

/-- Each mark stands behind a backslash; `before` is the character in front of the text. -/
def marksEscaped (before : Option Char) : Text → Bool
  | [] => true
  | c :: r => (!inlineMarks.contains c || before = some '\\') && marksEscaped (some c) r

/-- No glyph of such a text is a bare mark, unless an escape in front of it is cut. -/
theorem notMem_of_marksEscaped {before : Option Char} (h : marksEscaped before t = true)
    (hbefore : before = some '\\' → ∀ d ∈ t.head?, d ∉ escapableChars) :
    ∀ c, .plain c ∈ glyphs t → c ∉ inlineMarks := by
  have hsub : ∀ d ∈ inlineMarks, d ∈ escapableChars := forall_mem_of_all (by decide)
  -- A backslash that was read as it is has no escapable character behind it, so no mark either.
  induction t using glyphs.induct generalizing before with
  | case1 =>
    intro c hc
    rw [glyphs] at hc
    cases hc
  | case2 b r n hn ih =>
    obtain ⟨rfl, hr⟩ := escapeAt?_eq_some hn
    have hne : escapableChars[n] ≠ '\\' :=
      ne_of_mem_of_not_mem (List.getElem_mem n.isLt) (by decide)
    rw [hr, marksEscaped, marksEscaped, Bool.and_eq_true, Bool.and_eq_true] at h
    intro c hc
    rw [glyphs_escaped hn, List.mem_cons] at hc
    exact ih h.2.2 (fun heq => absurd (Option.some.inj heq) hne) c (hc.resolve_left nofun)
  | case3 b r hn ih =>
    rw [marksEscaped, Bool.and_eq_true, Bool.or_eq_true, decide_eq_true_eq] at h
    intro c hc
    rw [glyphs_plain hn, List.mem_cons] at hc
    rcases hc with hc | hc
    · obtain rfl := Glyph.plain.inj hc
      rcases h.1 with hmark | hescaped
      · simpa using hmark
      · exact fun hmem => hbefore hescaped c rfl (hsub c hmem)
    · refine ih h.2 (fun heq d hd => ?_) c hc
      obtain rfl := Option.some.inj heq
      obtain ⟨r, rfl⟩ := List.head?_eq_some_iff.mp hd
      exact not_mem_of_escapeAt?_eq_none hn

/-- A text in which the inline rules find nothing but escapes. -/
structure IsLiteral (t : Text) : Prop where
  /-- There is no stand-in. -/
  standIns : ∀ c ∈ t, c.toNat < 0xe000 ∨ 0xe00d < c.toNat
  /-- There is no mail address. -/
  mail : '@' ∉ t
  /-- There is no scheme of an address. -/
  address : ¬ "://".toList <:+: t
  /-- No line is broken by spaces. -/
  hardBreak : ¬ "  \n".toList <:+: t
  /-- Each mark is escaped. -/
  marks : marksEscaped none t = true

theorem IsLiteral.notMem_inlineMarks (h : IsLiteral t) (hc : .plain c ∈ glyphs t) :
    c ∉ inlineMarks :=
  notMem_of_marksEscaped h.marks (fun hbefore => by cases hbefore) c hc

/-! ### Nothing to find -/

/-- The rules look for nothing in what they read, hashes of references apart. -/
theorem isInert_of_mem_shielded (h : IsLiteral t) : ∀ c ∈ shielded t, isInert c = true := by
  intro c hc
  obtain ⟨g, hg, hc⟩ := List.mem_flatMap.mp hc
  cases g with
  | escaped n =>
    have hstandIn : ∀ n : Fin escapableChars.length, isInert (standIn n) = true := by decide
    rw [List.mem_singleton.mp hc]
    exact hstandIn n
  | plain d =>
    have hreference : ∀ e ∈ Html.referenceChars, isInert e = true := forall_mem_of_all (by decide)
    have hmarks : ∀ e, isInert e = false → e ∈ inlineMarks ∨ e = '@' ∨ e = '<' := by
      simp only [isInert, decide_eq_false_iff_not, not_not]
      exact forall_mem_of_all (by decide)
    rcases Html.eq_or_mem_of_mem_escapeChar hc with rfl | hc
    · by_contra hinert
      rcases hmarks c (Bool.eq_false_iff.mpr hinert) with hmark | rfl | rfl
      · exact h.notMem_inlineMarks hg hmark
      · exact h.mail (mem_of_plain_mem hg)
      · exact absurd hc (by decide)
    · exact hreference c hc

/-- A hash is read behind `&` only. -/
theorem hashBehindAmp_shielded (h : IsLiteral t) : hashBehindAmp (' ' :: shielded t) = true := by
  have hgeneral : ∀ (gs : List Glyph) (before : Char), (∀ c, .plain c ∈ gs → c ≠ '#') →
      hashBehindAmp (before :: gs.flatMap Glyph.shielded) = true := by
    intro gs
    induction gs with
    | nil => exact fun _ _ => rfl
    | cons g gs ih =>
      intro before hgs
      have hrest := fun b => ih b fun c hc => hgs c (.tail g hc)
      cases g with
      | escaped n =>
        have hstandIn : ∀ n : Fin escapableChars.length, standIn n ≠ '#' := by decide
        simp [Glyph.shielded, hashBehindAmp, hstandIn n, hrest]
      | plain c => exact hashBehindAmp_escapeChar (hgs c List.mem_cons_self) hrest before
  refine hgeneral (glyphs t) ' ' fun c hc => ?_
  rintro rfl
  exact h.notMem_inlineMarks hc (by decide)

/-- The characters that neither a reference nor a stand-in has. -/
def isOwn (c : Char) : Bool :=
  c.toNat < firstStandIn && c ∉ Html.referenceChars

/-- A character is read as it is, or other characters are read for it. -/
theorem shielded_eq_or (g : Glyph) :
    (∃ c, g = .plain c ∧ g.shielded = [c]) ∨ g.shielded ≠ [] ∧ ∀ d ∈ g.shielded, isOwn d = false := by
  cases g with
  | escaped n =>
    have hstandIn : ∀ n : Fin escapableChars.length, isOwn (standIn n) = false := by decide
    exact .inr ⟨List.cons_ne_nil _ _, by simpa [Glyph.shielded] using hstandIn n⟩
  | plain c =>
    cases hc : Html.isReserved c with
    | false => exact .inl ⟨c, rfl, Html.escapeChar_of_not_reserved hc⟩
    | true =>
      rw [Glyph.shielded]
      rcases Html.eq_or_of_isReserved hc with rfl | rfl | rfl | rfl | rfl <;>
        exact .inr ⟨by decide, forall_mem_of_all (by decide)⟩

/-- The characters in front of a text that are not in `w` are in no occurrence of `w`. -/
theorem infix_of_infix_append {x y : Text} (hx : ∀ d ∈ x, d ∉ w) (h : w <:+: x ++ y) : w <:+: y := by
  induction x with
  | nil => exact h
  | cons d x ih =>
    obtain ⟨hd, hx⟩ := List.forall_mem_cons.mp hx
    rcases List.infix_cons_iff.mp h with h | h
    · cases w with
      | nil => exact List.nil_infix
      | cons e w =>
        obtain ⟨rfl, -⟩ := List.cons_prefix_cons.mp h
        exact absurd List.mem_cons_self hd
    · exact ih hx h

section Occurrences

variable {gs : List Glyph}

theorem prefix_source (hw : ∀ c ∈ w, isOwn c = true) (h : w <+: gs.flatMap Glyph.shielded) :
    w <+: gs.flatMap Glyph.source := by
  induction gs generalizing w with
  | nil => exact h
  | cons g gs ih =>
    cases w with
    | nil => exact List.nil_prefix
    | cons d w =>
      obtain ⟨hd, hw⟩ := List.forall_mem_cons.mp hw
      rw [List.flatMap_cons] at h
      rcases shielded_eq_or g with ⟨c, rfl, hg⟩ | ⟨hne, hg⟩
      · rw [hg, List.singleton_append] at h
        obtain ⟨rfl, hrest⟩ := List.cons_prefix_cons.mp h
        exact List.cons_prefix_cons.mpr ⟨rfl, ih hw hrest⟩
      · obtain ⟨e, s, hs⟩ := List.exists_cons_of_ne_nil hne
        rw [hs] at h hg
        obtain ⟨rfl, -⟩ := List.cons_prefix_cons.mp h
        exact absurd (hg d List.mem_cons_self) (by simp [hd])

/-- What the rules read has a text with such characters only where it is written. -/
theorem infix_source (hw : ∀ c ∈ w, isOwn c = true) (h : w <:+: gs.flatMap Glyph.shielded) :
    w <:+: gs.flatMap Glyph.source := by
  induction gs with
  | nil => exact h
  | cons g gs ih =>
    have hrest : w <:+: gs.flatMap Glyph.shielded → w <:+: (g :: gs).flatMap Glyph.source :=
      fun hinfix => (ih hinfix).trans (List.suffix_append g.source _).isInfix
    rw [List.flatMap_cons] at h
    rcases shielded_eq_or g with ⟨c, rfl, hg⟩ | ⟨-, hg⟩
    · rw [hg] at h
      rcases List.infix_cons_iff.mp h with hprefix | hinfix
      · exact (prefix_source hw (by rwa [List.flatMap_cons, hg])).isInfix
      · exact hrest hinfix
    · exact hrest (infix_of_infix_append (fun d hd hmem => ne_of_class (hw d hmem) (hg d hd) rfl) h)

end Occurrences

theorem not_infix_shielded (hw : ∀ c ∈ w, isOwn c = true) (h : ¬ w <:+: t) : ¬ w <:+: shielded t :=
  fun hinfix => h (by simpa only [flatMap_source_glyphs] using infix_source hw hinfix)

theorem urlRule_shielded (h : IsLiteral t) : replaceBy urlRule (shielded t) = shielded t := by
  refine replaceBy_eq_self_of_not_infix (fun before c r hit hhit => ?_)
    (not_infix_shielded (forall_mem_of_all (by decide)) h.address)
  have hschemes : ∀ scheme ∈ schemes, "://".toList <:+: scheme := by
    unfold schemes
    repeat rw [String.toList_ofList]
    decide
  obtain ⟨o, scheme, body, b, rest, -, -, hscheme, htakes, -⟩ := urlRule_eq_some hhit
  rw [htakes.split]
  exact (hschemes scheme hscheme).trans ⟨o, body ++ b ++ rest, by simp⟩

theorem hardBreakRule_shielded (h : IsLiteral t) :
    replaceBy hardBreakRule (shielded t) = shielded t := by
  refine replaceBy_eq_self_of_not_infix (fun before c r hit hhit => ?_)
    (not_infix_shielded (forall_mem_of_all (by decide)) h.hardBreak)
  obtain ⟨spaces, rest, htakes, -, hne, hspaces⟩ := hardBreakRule_eq_some hhit
  obtain ⟨n, hn⟩ := Nat.exists_eq_succ_of_ne_zero (mt List.length_eq_zero_iff.mp hne)
  have hblanks : ' ' :: spaces = List.replicate n ' ' ++ [' ', ' '] := by
    rw [List.eq_replicate_of_mem hspaces, hn, ← List.replicate_succ, List.replicate_succ',
      List.replicate_succ', List.append_assoc]
    rfl
  rw [htakes.split, ← List.cons_append, hblanks]
  exact ⟨List.replicate n ' ', rest, by simp⟩

/-- The rules leave what they read of such a text as it is. -/
theorem render_of_isLiteral (h : IsLiteral t) (s : References) :
    render s true t = pure (revertEscapes (shielded t)) := by
  have hread : protectEscapes (if true then Html.escape t else t) = shielded t :=
    protectEscapes_escape t
  have hcode : '\x60' ∉ shielded t := fun hmem => absurd (isInert_of_mem_shielded h _ hmem) (by decide)
  have hcolor := colorRule_of_hashBehindAmp (hashBehindAmp_shielded h)
  rw [render_of_no_code s hread hcode, markUp_of_isInert s true (isInert_of_mem_shielded h)
    (urlRule_shielded h) hcolor (hardBreakRule_shielded h)]

/-- **Literal text stays literal.** A text in which the inline rules find nothing but escapes is shown
as it is written, without the backslashes of these escapes. -/
theorem render_literal (h : IsLiteral t) (s : References) :
    render s true t = pure (Html.escape (withoutEscapes t)) := by
  rw [render_of_isLiteral h, revertEscapes_shielded h.standIns]

/-- Escaped marks, runs of backslashes, and characters with a meaning in HTML, some of them escaped. -/
def literalText : Text :=
  "\\\\\\*a\\* \\[b](c) \\#fff <d> & \\> 'e' \\\\\"!\\! :/ \n\\".toList

theorem render_literal_text : IsLiteral literalText ∧ render .empty true literalText =
    pure "\\\\*a* [b](c) #fff &lt;d&gt; &amp; &gt; &#039;e&#039; \\\\&quot;!! :/ \n\\".toList := by
  have hliteral : IsLiteral literalText := by
    unfold literalText
    refine ⟨noStandIn_of_ascii ?_, ?_, ?_, ?_, ?_⟩ <;> repeat rw [String.toList_ofList]
    all_goals decide
  have hshown : Html.escape (withoutEscapes literalText) =
      "\\\\*a* [b](c) #fff &lt;d&gt; &amp; &gt; &#039;e&#039; \\\\&quot;!! :/ \n\\".toList := by
    unfold literalText
    repeat rw [String.toList_ofList]
    decide
  exact ⟨hliteral, hshown ▸ render_literal hliteral .empty⟩

/-! ### Markdown that was escaped -/

/-- The characters with a meaning in Markdown that no backslash escapes in an inline text. -/
def unescapable : Text :=
  "\\\x7b\x7d()".toList

/-- The text with a backslash before each of these characters. -/
def keptBackslashes (t : Text) : Text :=
  t.flatMap fun c => if c ∈ unescapable then ['\\', c] else [c]

/-- A letter, a digit, a space, or a character with a meaning in Markdown. -/
def isMarkdownChar (c : Char) : Bool :=
  isLetter c || isDigit c || c = ' ' || FromHtml.markdownChars.contains c

/-- The stand-ins are in the private use area, where no letters are. -/
theorem noStandIn_of_isMarkdownChar (h : isMarkdownChar c = true) :
    c.toNat < 0xe000 ∨ 0xe00d < c.toNat := by
  by_contra hprivate
  have hletter : isLetter c = false := isLetter_of_private (by omega) (by omega)
  have hdigit : isDigit c = false := isDigit_of_private (by omega) (by omega)
  have hascii : ∀ d ∈ ' ' :: FromHtml.markdownChars, d.toNat < 0xe000 :=
    forall_mem_of_all (by decide)
  have hmem : c ∈ ' ' :: FromHtml.markdownChars := by
    simpa [isMarkdownChar, hletter, hdigit] using h
  exact hprivate (.inl (hascii c hmem))

theorem escape_markdown_cons (c : Char) (r : Text) :
    FromHtml.escape (c :: r) =
      (if c ∈ FromHtml.markdownChars then ['\\', c] else [c]) ++ FromHtml.escape r := by
  simp [FromHtml.escape]

theorem mem_of_mem_escape_markdown (h : c ∈ FromHtml.escape t) : c = '\\' ∨ c ∈ t := by
  obtain ⟨d, hd, hc⟩ := List.mem_flatMap.mp h
  split at hc
  · rcases List.mem_cons.mp hc with hc | hc
    · exact .inl hc
    · exact .inr (List.mem_singleton.mp hc ▸ hd)
  · exact .inr (List.mem_singleton.mp hc ▸ hd)

theorem marksEscaped_escape (h : ∀ c ∈ t, isMarkdownChar c = true) (before : Option Char) :
    marksEscaped before (FromHtml.escape t) = true := by
  have hmarks : ∀ d ∈ inlineMarks, d ∉ FromHtml.markdownChars → isMarkdownChar d = false :=
    forall_mem_of_all (by decide)
  have hbackslash : '\\' ∉ inlineMarks := by decide
  induction t generalizing before with
  | nil => rfl
  | cons c r ih =>
    obtain ⟨hc, hr⟩ := List.forall_mem_cons.mp h
    rw [escape_markdown_cons]
    split
    · simp [marksEscaped, ih hr, hbackslash]
    · next hplain =>
      have hmark : c ∉ inlineMarks := fun hmem => ne_of_class hc (hmarks c hmem hplain) rfl
      simp [marksEscaped, ih hr, hmark]

/-- The rules find nothing but escapes in such a text that was escaped. -/
theorem isLiteral_escape (h : ∀ c ∈ t, isMarkdownChar c = true) : IsLiteral (FromHtml.escape t) := by
  have hmem : ∀ c ∈ FromHtml.escape t, isMarkdownChar c = true := by
    intro c hc
    rcases mem_of_mem_escape_markdown hc with rfl | hc
    · decide
    · exact h c hc
  have hnot : ∀ d, isMarkdownChar d = false → d ∉ FromHtml.escape t := fun d hd hin =>
    ne_of_class (hmem d hin) hd rfl
  exact ⟨fun c hc => noStandIn_of_isMarkdownChar (hmem c hc), hnot '@' (by decide),
    fun hin => hnot ':' (by decide) (hin.subset (by decide)),
    fun hin => hnot '\n' (by decide) (hin.subset (by decide)), marksEscaped_escape h none⟩

/-- No character that can be escaped follows a backslash by accident. -/
theorem head_notMem_escapableChars (h : ∀ c ∈ t, isMarkdownChar c = true) :
    ∀ d ∈ (FromHtml.escape t).head?, d ∉ escapableChars := by
  have hchars : ∀ d ∈ escapableChars, d ∉ FromHtml.markdownChars → isMarkdownChar d = false :=
    forall_mem_of_all (by decide)
  cases t with
  | nil => simp [FromHtml.escape]
  | cons c r =>
    intro d hd hmem
    rw [escape_markdown_cons] at hd
    split at hd
    · obtain rfl : '\\' = d := by simpa using hd
      exact absurd hmem (by decide)
    · next hplain =>
      obtain rfl : c = d := by simpa using hd
      exact ne_of_class (h c List.mem_cons_self) (hchars c hmem hplain) rfl

theorem withoutEscapes_escape_markdown (h : ∀ c ∈ t, isMarkdownChar c = true) :
    withoutEscapes (FromHtml.escape t) = keptBackslashes t := by
  induction t with
  | nil => rfl
  | cons c r ih =>
    obtain ⟨-, hr⟩ := List.forall_mem_cons.mp h
    have hnext := head_notMem_escapableChars hr
    rw [escape_markdown_cons, keptBackslashes, List.flatMap_cons, ← keptBackslashes, ← ih hr]
    by_cases hc : c ∈ FromHtml.markdownChars
    · rw [if_pos hc]
      by_cases hkept : c ∈ unescapable
      · have hdisjoint : ∀ d ∈ unescapable, d ∉ escapableChars := forall_mem_of_all (by decide)
        have hfirst : '\\' = '\\' → ∀ d ∈ (c :: FromHtml.escape r).head?, d ∉ escapableChars := by
          simpa using hdisjoint c hkept
        rw [if_pos hkept, List.cons_append, List.singleton_append, withoutEscapes_cons hfirst,
          withoutEscapes_cons fun _ => hnext]
        rfl
      · have hescapable : ∀ d ∈ FromHtml.markdownChars, d ∉ unescapable → d ∈ escapableChars :=
          forall_mem_of_all (by decide)
        rw [if_neg hkept]
        exact withoutEscapes_escape (hescapable c hc hkept) _
    · have hsub : ∀ d ∈ unescapable, d ∈ FromHtml.markdownChars := forall_mem_of_all (by decide)
      rw [if_neg hc, if_neg (mt (hsub c) hc)]
      exact withoutEscapes_cons fun _ => hnext

/-- Escaped Markdown is shown as it was, with the backslashes that escape nothing. -/
theorem render_keptBackslashes (h : ∀ c ∈ t, isMarkdownChar c = true) (s : References) :
    render s true (FromHtml.escape t) = pure (Html.escape (keptBackslashes t)) := by
  have hliteral := isLiteral_escape h
  rw [render_of_isLiteral hliteral, revertEscapes_shielded hliteral.standIns,
    withoutEscapes_escape_markdown h]

theorem keptBackslashes_eq_self_iff : keptBackslashes t = t ↔ ∀ c ∈ t, c ∉ unescapable := by
  have hlonger : ∀ c, (if c ∈ unescapable then ['\\', c] else [c]) = [c] ∨
      1 < (if c ∈ unescapable then ['\\', c] else [c]).length := by
    intro c
    split <;> simp
  rw [keptBackslashes, flatMap_eq_self_iff hlonger]
  simp

/-- **Escaped Markdown.** Of the backslashes that are put before the characters with a meaning in
Markdown, the inline text takes back those before characters that can be escaped. So what was escaped
comes back if there is no other such character, and only then. -/
theorem render_escape_markdown (h : ∀ c ∈ t, isMarkdownChar c = true) (s : References) :
    render s true (FromHtml.escape t) = pure (Html.escape (keptBackslashes t)) ∧
      (render s true (FromHtml.escape t) = pure (Html.escape t) ↔ ∀ c ∈ t, c ∉ unescapable) := by
  have hrender := render_keptBackslashes h s
  refine ⟨hrender, ?_⟩
  rw [hrender, ← keptBackslashes_eq_self_iff]
  constructor
  · intro heq
    exact Html.escape_inj.mp (congrArg Report.value heq)
  · exact fun heq => by rw [heq]

theorem render_escape_markdown_brackets :
    (∀ c ∈ "a [1](b) _\\*".toList, isMarkdownChar c = true) ∧
      render .empty true (FromHtml.escape "a [1](b) _\\*".toList) =
        pure "a [1]\\(b\\) _\\\\*".toList := by
  have hchars : ∀ c ∈ "a [1](b) _\\*".toList, isMarkdownChar c = true :=
    forall_mem_of_all (by decide)
  have hkept : Html.escape (keptBackslashes "a [1](b) _\\*".toList) =
      "a [1]\\(b\\) _\\\\*".toList := by decide
  exact ⟨hchars, hkept ▸ (render_escape_markdown hchars .empty).1⟩

/-- A parenthesis does not come back: its backslash is no escape. -/
theorem not_render_escape_markdown :
    ¬ ∀ t : Text, (∀ c ∈ t, isMarkdownChar c = true) → ¬ [' ', ' '] <:+: t →
      render .empty true (FromHtml.escape t) = pure (Html.escape t) := by
  intro hback
  have hchars : ∀ c ∈ ['('], isMarkdownChar c = true := forall_mem_of_all (by decide)
  have hparenthesis := hback ['('] hchars (by decide)
  rw [render_keptBackslashes hchars] at hparenthesis
  have htexts : Html.escape (keptBackslashes ['(']) = Html.escape ['('] :=
    congrArg Report.value hparenthesis
  exact absurd htexts (by decide)

end Markdown.Inline
