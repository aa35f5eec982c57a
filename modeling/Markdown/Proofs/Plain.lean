import Markdown.Proofs.Canonical
import Markdown.Proofs.Guarded
import Markdown.Proofs.Hits
import Markdown.Proofs.InlineGuard
import Markdown.Proofs.Lines
import Markdown.Proofs.Visible

/-!
# Plain texts

The lines of canonical documents under the operations on texts: they are found again in the text that
they make, and there is nothing around them to trim. No inline rule applies to a plain text, so
`Inline.render` gives it back.
-/

namespace Markdown.Canonical

open Text

variable {t : Text} {c : Char}

/-! ### Trimming -/

/-- Trimming keeps a visible character at the start. -/
theorem trim_cons (hc : isBlank c = false) (r : Text) : ∃ s, trim (c :: r) = c :: s := by
  rw [trim, trimStart_cons hc, trimEnd, trimEndBy, List.reverse_cons, List.dropWhile_append]
  split
  · exact ⟨[], by simp [hc]⟩
  · exact ⟨(r.reverse.dropWhile isBlank).reverse, by simp⟩

theorem trimEnd_append {s : Text} (h : t.getLast?.any (!isBlank ·) = true) (hs : allBlank s = true) :
    trimEnd (t ++ s) = t := by
  obtain ⟨z, hz⟩ : ∃ z, t.getLast? = some z := by
    cases hlast : t.getLast? with
    | none => simp [hlast] at h
    | some z => exact ⟨z, rfl⟩
  obtain ⟨r, rfl⟩ := List.getLast?_eq_some_iff.mp hz
  have hzblank : isBlank z = false := by simpa using h
  have hblank : ∀ c ∈ s.reverse, isBlank c = true := by
    intro c hc
    exact List.all_eq_true.mp hs c (List.mem_reverse.mp hc)
  rw [trimEnd, trimEndBy, List.reverse_append, List.dropWhile_append_of_pos hblank]
  simp [hzblank]

/-- Blanks behind a text that has none around it. -/
theorem trim_append {s : Text} (hhead : t.head?.any (!isBlank ·) = true)
    (hlast : t.getLast?.any (!isBlank ·) = true) (hs : allBlank s = true) : trim (t ++ s) = t := by
  cases t with
  | nil => cases hhead
  | cons c r =>
    have hc : isBlank c = false := by simpa using hhead
    rw [trim, List.cons_append, trimStart_cons hc, ← List.cons_append, trimEnd_append hlast hs]

/-- A space behind a text is trimmed. -/
theorem trim_append_space (t : Text) : trim (t ++ [' ']) = trim t := by
  have hspace : isBlank ' ' = true := rfl
  rw [trim, trim, trimStart, trimStartBy, List.dropWhile_append]
  split
  · next hblank =>
    rw [trimStart, trimStartBy, List.isEmpty_iff.mp hblank]
    rfl
  · simp [trimEnd, trimEndBy, trimStart, trimStartBy, hspace]

/-- A trimmed text begins with a visible character. -/
theorem visible_head_of_trim {r : Text} (h : trim (c :: r) = c :: r) : isBlank c = false := by
  cases hstart : trimStart (c :: r) with
  | nil =>
    rw [trim, hstart] at h
    cases h
  | cons d s =>
    have hd : isBlank d = false := not_of_dropWhile_eq_cons hstart
    obtain ⟨u, hu⟩ := trim_cons hd s
    rw [trim, trimStart_cons hd] at hu
    rw [trim, hstart, hu] at h
    rw [← (List.cons.inj h).1]
    exact hd

/-- A trimmed text ends with a visible character. -/
theorem visible_getLast_of_trim {r : Text} (h : trim (c :: r) = c :: r) :
    (c :: r).getLast?.any (!isBlank ·) = true := by
  rw [← h, trim, trimEnd, trimEndBy, List.getLast?_reverse]
  cases hrest : (trimStart (c :: r)).reverse.dropWhile isBlank with
  | nil =>
    rw [trim, trimEnd, trimEndBy, hrest] at h
    cases h
  | cons z s => simp [not_of_dropWhile_eq_cons hrest]

theorem trim_word (h : ∀ c ∈ t, isBlank c = false) : trim t = t := by
  cases t with
  | nil => rfl
  | cons c r =>
    obtain ⟨z, hz⟩ : ∃ z, (c :: r).getLast? = some z := ⟨_, List.getLast?_cons⟩
    have hhead : (c :: r).head?.any (!isBlank ·) = true := by simp [h c List.mem_cons_self]
    have hlast : (c :: r).getLast?.any (!isBlank ·) = true := by
      simp [hz, h z (List.mem_of_getLast? hz)]
    simpa using trim_append (s := []) hhead hlast rfl

theorem trim_of_isPlain (h : isPlain t = true) : trim t = t := by
  have hlast := visible_getLast_of_isPlain h
  obtain ⟨c, r, rfl, hc⟩ := exists_cons_of_isPlain h
  have hhead : (c :: r).head?.any (!isBlank ·) = true := by simp [isBlank_of_isAsciiLetter hc]
  simpa using trim_append (s := []) hhead hlast rfl

/-! ### Lines -/

theorem head?_unlines {ls : List Text} (h : opens ls = true) :
    (unlines ls).head?.any (!isBlank ·) = true := by
  cases ls with
  | nil => cases h
  | cons l r =>
    cases l with
    | nil => cases h
    | cons c l =>
      by_cases hr : r = []
      · subst hr
        simpa [unlines, opens, List.intercalate] using h
      · simpa [unlines_cons _ hr, opens] using h

theorem getLast?_unlines {ls : List Text} (h : closes ls = true) :
    (unlines ls).getLast?.any (!isBlank ·) = true := by
  induction ls with
  | nil => cases h
  | cons l r ih =>
    by_cases hr : r = []
    · subst hr
      simpa [unlines, closes, List.intercalate] using h
    · obtain ⟨k, r, rfl⟩ := List.exists_cons_of_ne_nil hr
      have hrest := ih (by simpa [closes, List.getLast?_cons] using h)
      rw [unlines_cons l hr, List.getLast?_append, List.getLast?_cons]
      cases hlast : (unlines (k :: r)).getLast? with
      | none => simp [hlast] at hrest
      | some z => simpa [hlast] using hrest

/-- Framed lines have no blanks around them. -/
theorem Framed.trim_unlines {ls : List Text} (h : Framed ls) {s : Text} (hs : allBlank s = true) :
    trim (unlines ls ++ s) = unlines ls :=
  trim_append (head?_unlines h.opens) (getLast?_unlines h.closes) hs

/-- A printable text has no line ends. -/
theorem not_mem_of_printable {d : Char} (hd : isPrintable d = false)
    (h : ∀ c ∈ t, isPrintable c = true) : d ∉ t := by
  intro hmem
  rw [h d hmem] at hd
  cases hd

theorem Framed.lines_unlines {ls : List Text} (h : Framed ls) : Text.lines (unlines ls) = ls := by
  apply Text.lines_unlines
  · rintro rfl
    cases h.opens
  · exact fun l hl => not_mem_of_printable (by decide) (h.printable l hl)

/-- The characters of a text made of printable lines. -/
theorem Framed.mem_unlines {ls : List Text} (h : Framed ls) :
    ∀ c ∈ unlines ls, c = '\n' ∨ isPrintable c = true :=
  forall_mem_intercalate (by simp) fun l hl c hc => .inr (h.printable l hl c hc)

theorem normalizeNewlines_eq_self (h : '\r' ∉ t) : normalizeNewlines t = t := by
  induction t with
  | nil => rfl
  | cons c r ih =>
    have hc : c ≠ '\r' := fun hc => h (by simp [hc])
    have hr := ih (List.not_mem_of_not_mem_cons h)
    rw [normalizeNewlines.eq_def]
    split <;> simp_all

/-! ### Inline rules -/

/-- A rule that writes what it takes changes nothing. -/
theorem replaceBy_eq_self {rule : Rule}
    (h : ∀ before x c r hit, t = x ++ c :: r → (x ≠ [] → before = x.getLast?) →
      rule before c r = some hit → hit.text = c :: r.take hit.extra) : replaceBy rule t = t := by
  have hgeneral : ∀ n before x s, s.length = n → t = x ++ s → (x ≠ [] → before = x.getLast?) →
      replaceFrom rule before s = s := by
    intro n
    induction n using Nat.strongRecOn with
    | ind n ih =>
      intro before x s hn hsplit hbefore
      cases s with
      | nil => simp
      | cons c r =>
        simp only [List.length_cons] at hn
        cases hrule : rule before c r with
        | none =>
          rw [replaceFrom_cons_none hrule,
            ih r.length (by omega) (some c) (x ++ [c]) r rfl (by simpa using hsplit) (by simp)]
        | some hit =>
          have hwhole : c :: r = (c :: r.take hit.extra) ++ r.drop hit.extra := by simp
          have hlast : (x ++ c :: r.take hit.extra).getLast? = (c :: r.take hit.extra).getLast? := by
            rw [List.getLast?_append, List.getLast?_cons]
            rfl
          rw [replaceFrom_cons_some hrule, h before x c r hit hsplit hbefore hrule,
            ih _ (by rw [List.length_drop]; omega) _ (x ++ c :: r.take hit.extra) _ rfl
              (by rw [hsplit, List.append_assoc, ← hwhole]) (fun _ => hlast.symm), ← hwhole]
  exact hgeneral t.length none [] t rfl rfl (by simp)

/-- A rule that never applies to a text whose characters all satisfy `p`: it needs another one. -/
def Idle (p : Char → Bool) (rule : Rule) : Prop :=
  ∀ before c r hit, rule before c r = some hit → ∃ d ∈ c :: r, p d = false

variable {p : Char → Bool}

theorem idle_of_takes {rule : Rule}
    (h : ∀ before c r hit, rule before c r = some hit →
      ∃ old rest, hit.Takes c r old rest ∧ ∃ d ∈ old, p d = false) : Idle p rule := by
  intro before c r hit hhit
  obtain ⟨old, rest, htakes, d, hd, hdtext⟩ := h before c r hit hhit
  exact ⟨d, by rw [htakes.split]; exact List.mem_append_left rest hd, hdtext⟩

theorem Idle.replaceBy {rule : Rule} (hrule : Idle p rule) (h : ∀ c ∈ t, p c = true) :
    replaceBy rule t = t := by
  refine replaceBy_eq_self fun before x c r hit hsplit _ hhit => ?_
  obtain ⟨d, hd, hdtext⟩ := hrule before c r hit hhit
  rw [h d (by rw [hsplit]; exact List.mem_append_right x hd)] at hdtext
  cases hdtext

/-- A rule that takes nothing without a certain text in it does not apply without that text. -/
theorem replaceBy_eq_self_of_not_infix {rule : Rule} {w : Text}
    (hrule : ∀ before c r hit, rule before c r = some hit → w <:+: c :: r) (h : ¬ w <:+: t) :
    replaceBy rule t = t :=
  replaceBy_eq_self fun before x c r hit hsplit _ hhit => by
    have hinfix := (hrule before c r hit hhit).trans (List.suffix_append x (c :: r)).isInfix
    exact absurd (hsplit ▸ hinfix) h

theorem idle_fixed {s : Text} (replacement : Text) (h : ∃ d ∈ s, p d = false) :
    Idle p (Rule.fixed s replacement) := by
  intro before c r hit hhit
  obtain ⟨d, hd, htext⟩ := h
  obtain ⟨hstart, -⟩ := Option.ite_none_right_eq_some.mp hhit
  exact ⟨d, (List.isPrefixOf_iff_prefix.mp hstart).subset hd, htext⟩

open Inline

theorem idle_longSpan {mark : Text} (words : Bool) (wrap : Text → Text)
    (h : ∃ d ∈ mark, p d = false) : Idle p (longSpan mark words wrap) := by
  apply idle_of_takes
  intro before c r hit hhit
  obtain ⟨d, hd, hdtext⟩ := h
  obtain ⟨inner, rest, htakes, -⟩ := longSpan_eq_some (List.ne_nil_of_mem hd) hhit
  exact ⟨_, rest, htakes, d, List.mem_append_left _ hd, hdtext⟩

theorem idle_shortSpan (s : SpanStyle) (wrap : Text → Text) (h : p s.mark = false) :
    Idle p (shortSpan s wrap) := by
  apply idle_of_takes
  intro before c r hit hhit
  obtain ⟨inner, rest, htakes, -⟩ := shortSpan_eq_some hhit
  exact ⟨_, rest, htakes, s.mark, by simp, h⟩

theorem idle_of_mem_emphasisRules (hstar : p '*' = false) (hscore : p '_' = false) :
    ∀ rule ∈ emphasisRules, Idle p rule := by
  simp only [emphasisRules, List.forall_mem_cons]
  exact ⟨idle_longSpan _ _ ⟨'*', by decide, hstar⟩, idle_longSpan _ _ ⟨'_', by decide, hscore⟩,
    idle_longSpan _ _ ⟨'*', by decide, hstar⟩, idle_longSpan _ _ ⟨'_', by decide, hscore⟩,
    idle_shortSpan _ _ hstar, idle_shortSpan _ _ hscore, by simp⟩

theorem idle_imageRule (h : ∃ d ∈ "![](".toList, p d = false) : Idle p imageRule :=
  idle_of_takes fun _ _ _ _ hhit => by
    obtain ⟨alt, closing, target, -, htakes, -⟩ := imageRule_eq_some hhit
    obtain ⟨d, hd, hdtext⟩ := h
    refine ⟨_, _, htakes, d, ?_, hdtext⟩
    simp only [String.reduceToList, List.mem_cons, List.not_mem_nil, or_false] at hd
    rcases hd with rfl | rfl | rfl | rfl <;> simp

theorem idle_linkRule (h : ∃ d ∈ "[](".toList, p d = false) : Idle p linkRule :=
  idle_of_takes fun _ _ _ _ hhit => by
    obtain ⟨label, closing, target, -, htakes, -⟩ := linkRule_eq_some hhit
    obtain ⟨d, hd, hdtext⟩ := h
    refine ⟨_, _, htakes, d, ?_, hdtext⟩
    simp only [String.reduceToList, List.mem_cons, List.not_mem_nil, or_false] at hd
    rcases hd with rfl | rfl | rfl <;> simp

theorem idle_fullReferenceRule (s : References) (sanitize : Bool) (h : p '[' = false) :
    Idle p (fullReferenceRule s sanitize) := idle_of_takes fun _ _ _ _ hhit => by
  obtain ⟨label, id, rest, htakes, -⟩ := fullReferenceRule_eq_some hhit
  exact ⟨_, _, htakes, '[', by simp, h⟩

theorem idle_shortcutRule (s : References) (sanitize : Bool) (h : p '[' = false) :
    Idle p (shortcutRule s sanitize) :=
  idle_of_takes fun _ _ _ _ hhit => by
    obtain ⟨label, rest, htakes, -⟩ := shortcutRule_eq_some hhit
    exact ⟨_, _, htakes, '[', by simp, h⟩

theorem idle_footnoteRule (s : References) (h : ∃ d ∈ "[^]".toList, p d = false) :
    Idle p (footnoteRule s) := idle_of_takes fun _ _ _ _ hhit => by
  obtain ⟨id, rest, htakes, -⟩ := footnoteRule_eq_some hhit
  obtain ⟨d, hd, hdtext⟩ := h
  refine ⟨_, _, htakes, d, ?_, hdtext⟩
  simp only [String.reduceToList, List.mem_cons, List.not_mem_nil, or_false] at hd
  rcases hd with rfl | rfl | rfl <;> simp

theorem colon_mem_of_mem_schemes : ∀ scheme ∈ schemes, ':' ∈ scheme := by
  unfold schemes
  repeat rw [String.toList_ofList]
  decide

theorem idle_urlRule (h : p ':' = false) : Idle p urlRule := idle_of_takes fun _ _ _ _ hhit => by
  obtain ⟨o, scheme, body, b, rest, -, -, hscheme, htakes, -⟩ := urlRule_eq_some hhit
  have hcolon := List.mem_append_left (body ++ b) (colon_mem_of_mem_schemes scheme hscheme)
  exact ⟨_, _, htakes, ':', List.mem_append_right o hcolon, h⟩

theorem idle_mailRule (h : p '@' = false) : Idle p mailRule := idle_of_takes fun _ _ _ _ hhit => by
  obtain ⟨o, user, domain, b, rest, -, -, htakes, -⟩ := mailRule_eq_some hhit
  exact ⟨_, _, htakes, '@', by simp, h⟩

theorem idle_escapeRule (h : p '\\' = false) : Idle p escapeRule :=
  idle_of_takes fun _ _ _ _ hhit => by
    obtain ⟨n, s, rest, -, htakes, -⟩ := escapeRule_eq_some hhit
    exact ⟨_, _, htakes, '\\', by simp, h⟩

theorem idle_colorRule (h : p '#' = false) : Idle p colorRule := idle_of_takes fun _ _ _ _ hhit => by
  obtain ⟨digits, rest, -, htakes, -⟩ := colorRule_eq_some hhit
  exact ⟨_, _, htakes, '#', by simp, h⟩

theorem idle_hardBreakRule (h : p '\n' = false) : Idle p hardBreakRule :=
  idle_of_takes fun _ _ _ _ hhit => by
    obtain ⟨spaces, rest, htakes, -⟩ := hardBreakRule_eq_some hhit
    exact ⟨_, _, htakes, '\n', by simp, h⟩

/-! ### Rendering -/

theorem applyRules_eq_self {rules : List Rule} (h : ∀ rule ∈ rules, replaceBy rule t = t) :
    applyRules rules t = t := by
  induction rules with
  | nil => rfl
  | cons rule rules ih =>
    rw [applyRules, List.foldl_cons, h rule List.mem_cons_self]
    exact ih fun r hr => h r (List.mem_cons_of_mem rule hr)

theorem emphasis_eq_self (hstar : p '*' = false) (hscore : p '_' = false) (h : ∀ c ∈ t, p c = true) :
    emphasis t = t :=
  applyRules_eq_self fun rule hrule => (idle_of_mem_emphasisRules hstar hscore rule hrule).replaceBy h

theorem colorRule_of_no_hash (h : '#' ∉ t) : replaceBy colorRule t = t :=
  (idle_colorRule (p := (· ≠ '#')) (by decide)).replaceBy fun _ hc =>
    decide_eq_true (ne_of_mem_of_not_mem hc h)

/-- In the written form of a character other than the hash, a hash is behind `&`. -/
theorem hashBehindAmp_escapeChar (hc : c ≠ '#') (h : ∀ before, hashBehindAmp (before :: t) = true)
    (before : Char) : hashBehindAmp (before :: (Html.escapeChar c ++ t)) = true := by
  cases hreserved : Html.isReserved c with
  | false => simp [Html.escapeChar_of_not_reserved hreserved, hashBehindAmp, hc, h]
  | true =>
    have hrest := h ';'
    rcases Html.eq_or_of_isReserved hreserved with rfl | rfl | rfl | rfl | rfl <;> exact hrest

/-- A hash behind `&` is no colour. The blank stands for what is before the text. -/
theorem colorRule_of_hashBehindAmp (h : hashBehindAmp (' ' :: t) = true) :
    replaceBy colorRule t = t := by
  refine replaceBy_eq_self fun before x c r hit hsplit hbefore hhit => ?_
  obtain ⟨digits, rest, hafter, htakes, -⟩ := colorRule_eq_some hhit
  obtain ⟨rfl, -⟩ := List.cons.inj htakes.split
  have hamp : (' ' :: x).getLast? = some '&' := hashBehindAmp_append (v := r) (by simp) (by
    rwa [List.cons_append, ← hsplit])
  cases x with
  | nil => cases hamp
  | cons d x =>
    rw [hbefore (by simp), ← List.getLast?_cons_cons, hamp] at hafter
    cases hafter

/-- A part of HTML that has no hash shows no colour, whether it is a tag or not. -/
theorem colorPart_of_no_hash (h : '#' ∉ t) :
    (if t.startsWith ['<'] then t else replaceBy colorRule t) = t := by
  rw [colorRule_of_no_hash h, ite_self]

/-- Without tags the whole text is looked through for colours. -/
theorem colorPreviews_of_no_tag (h : '<' ∉ t) : colorPreviews t = replaceBy colorRule t := by
  have hstarts : t.startsWith ['<'] = false := by
    cases t with
    | nil => rfl
    | cons c r => simp [startsWith, List.isPrefixOf, List.ne_of_not_mem_cons h]
  rw [colorPreviews, Html.mapTexts_of_not_mem (colorPart_of_no_hash (by simp)) h, hstarts]
  rfl

@[simp] theorem colorPreviews_nil : colorPreviews [] = [] := by
  simp [colorPreviews, Html.mapTexts, Html.parts]

/-- A text without a hash in front of a tag shows no colour. -/
theorem colorPreviews_text {tag : Text} (hplace : '<' ∉ t) (hhash : '#' ∉ t) (htag : Html.IsTag tag)
    (r : Text) : colorPreviews (t ++ (tag ++ r)) = t ++ (tag ++ colorPreviews r) := by
  rw [colorPreviews, Html.mapTexts_text (colorPart_of_no_hash (by simp)) hplace htag,
    colorPart_of_no_hash hhash]
  rfl

/-- A character at which no paired mark, no code span, no bracket, no mail address and no tag is
found. -/
def isInert (c : Char) : Bool :=
  c ∉ "*_~=^\x60[@<".toList

/-- Addresses, colours and line breaks are the only other things that the rules look for. -/
theorem markUp_of_isInert (s : References) (sanitize : Bool) (h : ∀ c ∈ t, isInert c = true)
    (hurl : replaceBy urlRule t = t) (hcolor : replaceBy colorRule t = t)
    (hbreak : replaceBy hardBreakRule t = t) : markUp s sanitize t = t := by
  have htag : '<' ∉ t := fun hmem => absurd (h _ hmem) (by decide)
  have hdecorations : decorations t = t := by
    apply applyRules_eq_self
    simp only [decorationRules, List.forall_mem_cons]
    exact ⟨(idle_longSpan _ _ ⟨'~', by decide, rfl⟩).replaceBy h,
      (idle_longSpan _ _ ⟨'=', by decide, rfl⟩).replaceBy h, (idle_shortSpan _ _ rfl).replaceBy h,
      (idle_shortSpan _ _ rfl).replaceBy h, by simp⟩
  rw [markUp, emphasis_eq_self (by decide) (by decide) h, hdecorations, imagesAndLinks,
    (idle_imageRule ⟨'[', by decide, rfl⟩).replaceBy h,
    (idle_linkRule ⟨'[', by decide, rfl⟩).replaceBy h, references,
    (idle_fullReferenceRule s sanitize (by decide)).replaceBy h,
    (idle_shortcutRule s sanitize (by decide)).replaceBy h, autolinks, hurl,
    (idle_mailRule (by decide)).replaceBy h, footnotes, (idle_footnoteRule s ⟨'[', by decide, rfl⟩).replaceBy h,
    colorPreviews_of_no_tag htag, hcolor, hardBreaks, hbreak]

/-- A character of the texts in blocks: of a plain text, a pipe, or a line feed. -/
def isMild (c : Char) : Bool :=
  isTextChar c || c = '|' || c = '\n'

theorem isMild_of_isTextChar (h : isTextChar c = true) : isMild c = true := by
  rw [isMild, h]
  rfl

theorem isInert_of_isMild (h : isMild c = true) : isInert c = true := by
  have hmarks : ∀ d ∈ "*_~=^\x60[@<".toList, isMild d = false := forall_mem_of_all (by decide)
  exact decide_eq_true fun hmem => ne_of_class h (hmarks c hmem) rfl

/-- In such texts the rules look for line breaks only. -/
theorem markUp_of_isMild (s : References) (sanitize : Bool) (h : ∀ c ∈ t, isMild c = true)
    (hbreak : replaceBy hardBreakRule t = t) : markUp s sanitize t = t :=
  markUp_of_isInert s sanitize (fun c hc => isInert_of_isMild (h c hc))
    ((idle_urlRule (by decide)).replaceBy h) ((idle_colorRule (by decide)).replaceBy h) hbreak

theorem protectCode_of_not_mem (h : '\x60' ∉ t) : protectCode [] t = (t, []) := by
  have hspans := stashSpans_append_of_not_mem h 0 []
  simp only [List.append_nil, segment_nil, stashSpans] at hspans
  rw [protectCode, List.length_nil, hspans, List.append_nil]

theorem escapeChar_of_isMild (h : isMild c = true) : Html.escapeChar c = [c] := by
  unfold Html.escapeChar
  split <;> first | rfl | cases h

theorem escape_of_isMild (h : ∀ c ∈ t, isMild c = true) : Html.escape t = t :=
  flatMap_eq_self fun c hc => escapeChar_of_isMild (h c hc)

theorem escapeChar_of_isTextChar (h : isTextChar c = true) : Html.escapeChar c = [c] :=
  escapeChar_of_isMild (isMild_of_isTextChar h)

theorem escape_of_isTextChar (h : ∀ c ∈ t, isTextChar c = true) : Html.escape t = t :=
  escape_of_isMild fun c hc => isMild_of_isTextChar (h c hc)

/-- Nothing in ASCII is a stand-in. -/
theorem revertEscapes_of_isAscii (h : ∀ c ∈ t, c.toNat < 0x80) : revertEscapes t = t :=
  flatMap_eq_self fun c hc => by
    rw [standsFor?_eq_none (.inl ((h c hc).trans (by decide)))]
    rfl

theorem isAscii_of_isPrintable (h : isPrintable c = true) : c.toNat < 0x80 := by
  simp [isPrintable, Char.le_def, UInt32.le_iff_toNat_le] at h ⊢
  omega

/-- Without code spans only the inline rules matter, and the stand-ins for escapes. -/
theorem render_of_no_code (s : References) {sanitize : Bool} {w : Text}
    (hw : protectEscapes (if sanitize then Html.escape t else t) = w) (hcode : '\x60' ∉ w) :
    Inline.render s sanitize t = pure (revertEscapes (markUp s sanitize w)) := by
  simp [Inline.render, hw, protectCode_of_not_mem hcode, restoreCode]

/-- Without code spans and escapes only the inline rules matter, and stand-ins that are there. -/
theorem render_of_no_marks (s : References) {sanitize : Bool} {w : Text}
    (hw : (if sanitize then Html.escape t else t) = w) (hcode : '\x60' ∉ w) (hescape : '\\' ∉ w) :
    Inline.render s sanitize t = pure (revertEscapes (markUp s sanitize w)) := by
  refine render_of_no_code s ?_ hcode
  rw [hw]
  exact (idle_escapeRule (p := (· ≠ '\\')) (by decide)).replaceBy fun _ hc =>
    decide_eq_true (ne_of_mem_of_not_mem hc hescape)

theorem isAscii_of_isMild (h : isMild c = true) : c.toNat < 0x80 := by
  simp only [isMild, Bool.or_eq_true, decide_eq_true_eq] at h
  rcases h with (h | rfl) | rfl
  · exact isAscii_of_isPrintable (isPrintable_of_isTextChar h)
  · decide
  · decide

/-- Such texts are rendered as they are, if they have no line breaks. -/
theorem render_of_isMild (s : References) (sanitize : Bool) (h : ∀ c ∈ t, isMild c = true)
    (hbreak : replaceBy hardBreakRule t = t) : Inline.render s sanitize t = pure t := by
  have hsource : (if sanitize then Html.escape t else t) = t := by
    rw [escape_of_isMild h, ite_self]
  have hcode : '\x60' ∉ t := fun hmem => absurd (h _ hmem) (by decide)
  have hescape : '\\' ∉ t := fun hmem => absurd (h _ hmem) (by decide)
  rw [render_of_no_marks s hsource hcode hescape, markUp_of_isMild s sanitize h hbreak,
    revertEscapes_of_isAscii fun c hc => isAscii_of_isMild (h c hc)]

/-! ### Texts of cells -/

/-- A text of one line without blanks around it: letters, digits, spaces and pipes. -/
structure IsCellText (t : Text) : Prop where
  /-- There is something in it. -/
  ne_nil : t ≠ []
  /-- These are its characters. -/
  chars : ∀ c ∈ t, isTextChar c = true ∨ c = '|'
  /-- There are no blanks around it. -/
  trim_eq : trim t = t

theorem isCellText_iff :
    IsCellText t ↔
      t ≠ [] ∧ t.all (fun c => isTextChar c || c = '|') = true ∧ trim t = t := by
  have hall : t.all (fun c => isTextChar c || c = '|') = true ↔
      ∀ c ∈ t, isTextChar c = true ∨ c = '|' := by
    simp only [List.all_eq_true, Bool.or_eq_true, decide_eq_true_eq]
  rw [hall]
  constructor
  · intro h
    exact ⟨h.ne_nil, h.chars, h.trim_eq⟩
  · rintro ⟨hne, hchars, htrim⟩
    exact ⟨hne, hchars, htrim⟩

instance : DecidablePred IsCellText :=
  fun _ => decidable_of_iff _ isCellText_iff.symm

theorem isCellText_of_isPlain (h : isPlain t = true) : IsCellText t :=
  ⟨ne_nil_of_isPlain h, fun _ hc => .inl (isTextChar_of_mem h hc), trim_of_isPlain h⟩

theorem isCellText_of_isRow {cells : List Text} (h : isRow cells = true) :
    ∀ t ∈ cells, IsCellText t :=
  fun t ht => isCellText_of_isPlain ((isRow_iff.mp h).2 t ht)

theorem isCellText_of_all_isRow {rows : List (List Text)} (h : rows.all isRow = true) :
    ∀ row ∈ rows, ∀ t ∈ row, IsCellText t :=
  fun row hrow => isCellText_of_isRow (List.all_eq_true.mp h row hrow)

theorem IsCellText.not_mem (h : IsCellText t) (htext : isTextChar c = false) (hpipe : c ≠ '|') :
    c ∉ t := by
  intro hmem
  rcases h.chars c hmem with hc | hc
  · exact ne_of_class hc htext rfl
  · exact hpipe hc

theorem IsCellText.isMild (h : IsCellText t) : ∀ c ∈ t, isMild c = true := by
  intro c hc
  rcases h.chars c hc with htext | rfl
  · exact isMild_of_isTextChar htext
  · decide

theorem IsCellText.isPrintable (h : IsCellText t) : ∀ c ∈ t, isPrintable c = true := by
  intro c hc
  rcases h.chars c hc with htext | rfl
  · exact isPrintable_of_isTextChar htext
  · decide

theorem IsCellText.render (h : IsCellText t) (s : References) (sanitize : Bool) :
    Inline.render s sanitize t = pure t :=
  render_of_isMild s sanitize h.isMild
    ((idle_hardBreakRule (p := (· ≠ '\n')) (by decide)).replaceBy fun _ hc =>
      decide_eq_true (ne_of_mem_of_not_mem hc (h.not_mem (by decide) (by decide))))

end Markdown.Canonical
