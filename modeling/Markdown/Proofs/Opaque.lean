import Markdown.Proofs.Guarded
import Markdown.Proofs.InlineDigits
import Markdown.Proofs.Visible

/-!
# Code spans are opaque

The text before and behind a code span is rendered without regard to what the span holds: it is put
aside before any rule of the inline text runs, and the rules see the number of the span only. What
they make of the text is a `Template`, a text with holes; the span is written into the holes as it
is, and nothing looks at it again (`render_codeSpan`).
-/

namespace Markdown.Inline

open Text

variable {t x y k : Text}

/-! ### Texts with holes -/

/-- A text with holes, which are `none`. -/
abbrev Template := List (Option Text)

/-- The template with the text `k` in each hole. -/
def Template.fill (ps : Template) (k : Text) : Text :=
  ps.flatMap fun p => p.getD k

/-- The pieces between the holes. -/
theorem Template.exists_fill_eq_intercalate (ps : Template) :
    ∃ first more, ∀ k, ps.fill k = k.intercalate (first :: more) := by
  induction ps with
  | nil => exact ⟨[], [], fun k => by simp [fill, List.intercalate]⟩
  | cons p ps ih =>
    obtain ⟨first, more, ih⟩ := ih
    cases p with
    | none =>
      refine ⟨[], first :: more, fun k => ?_⟩
      rw [fill, List.flatMap_cons, ← fill, ih, List.intercalate_cons_cons]
      rfl
    | some t =>
      refine ⟨t ++ first, more, fun k => ?_⟩
      rw [fill, List.flatMap_cons, ← fill, ih]
      cases more with
      | nil => simp
      | cons m more => simp [List.intercalate_cons_cons]

/-! ### Escapes around a backtick -/

theorem escapable_backtick : ∀ s ∈ escapable, s = ['\x60'] ∨ '\x60' ∉ s := by
  unfold escapable
  repeat rw [String.toList_ofList]
  decide

/-- A backtick that no backslash precedes belongs to no escape. -/
theorem escapeRule_append (before : Option Char) {c : Char} {r : Text}
    (h : (c :: r).getLast? ≠ some '\\') (y : Text) :
    escapeRule before c (r ++ '\x60' :: y) = escapeRule before c r := by
  unfold escapeRule
  by_cases hc : c = '\\'
  · subst hc
    have hr : r ≠ [] := by
      rintro rfl
      exact h rfl
    obtain ⟨d, r, rfl⟩ := List.exists_cons_of_ne_nil hr
    have hstarts : ∀ s ∈ escapable,
        s.isPrefixOf (d :: r ++ '\x60' :: y) = s.isPrefixOf (d :: r) := by
      intro s hs
      rcases escapable_backtick s hs with rfl | hs
      · rfl
      · exact isPrefixOf_append_of_not_mem hs _ _
    rw [findIdx?_congr hstarts]
  · rw [if_neg hc, if_neg hc]


theorem extra_le_of_escapeRule {before : Option Char} {c : Char} {r : Text} {hit : Hit}
    (h : escapeRule before c r = some hit) : hit.extra ≤ r.length := by
  unfold escapeRule at h
  obtain ⟨-, h⟩ := Option.ite_none_right_eq_some.mp h
  split at h
  · next n hn =>
    obtain rfl := Option.some.inj h
    obtain ⟨hlt, hs, -⟩ := List.findIdx?_eq_some_iff_getElem.mp hn
    rw [List.getElem?_eq_getElem hlt]
    exact (List.isPrefixOf_iff_prefix.mp hs).length_le
  · cases h

/-- The rule does not look at the character before a place. -/
theorem replaceFrom_escapeRule (before : Option Char) (t : Text) :
    replaceFrom escapeRule before t = protectEscapes t := by
  rw [protectEscapes, replaceBy_eq_replaceFrom]
  cases t with
  | nil => simp
  | cons c r =>
    have hrule : escapeRule before c r = escapeRule none c r := rfl
    cases hhit : escapeRule none c r with
    | none => rw [replaceFrom_cons_none hhit, replaceFrom_cons_none (hrule.trans hhit)]
    | some hit => rw [replaceFrom_cons_some hhit, replaceFrom_cons_some (hrule.trans hhit)]

@[simp] theorem protectEscapes_nil : protectEscapes [] = [] :=
  replaceFrom_nil escapeRule none

theorem protectEscapes_cons_none {c : Char} {r : Text} (h : escapeRule none c r = none) :
    protectEscapes (c :: r) = c :: protectEscapes r := by
  rw [protectEscapes, replaceBy_eq_replaceFrom, replaceFrom_cons_none h, replaceFrom_escapeRule]

theorem protectEscapes_cons_some {c : Char} {r : Text} {hit : Hit}
    (h : escapeRule none c r = some hit) :
    protectEscapes (c :: r) = hit.text ++ protectEscapes (r.drop hit.extra) := by
  rw [protectEscapes, replaceBy_eq_replaceFrom, replaceFrom_cons_some h, replaceFrom_escapeRule]

/-- Escapes end in front of a backtick that no backslash precedes. -/
theorem protectEscapes_backtick (h : x.getLast? ≠ some '\\') (y : Text) :
    protectEscapes (x ++ '\x60' :: y) = protectEscapes x ++ '\x60' :: protectEscapes y := by
  induction hn : x.length using Nat.strongRecOn generalizing x with
  | ind n ih =>
    cases x with
    | nil =>
      rw [List.nil_append, protectEscapes_cons_none (if_neg (by decide)), protectEscapes_nil]
      rfl
    | cons c r =>
      simp only [List.length_cons] at hn
      have hlater : ∀ m, (r.drop m).getLast? ≠ some '\\' := by
        intro m
        rw [List.getLast?_drop]
        split
        · simp
        · next hm =>
          rw [List.getLast?_cons] at h
          cases hr : r.getLast? with
          | none => simp
          | some z => simpa [hr] using h
      have hrule := escapeRule_append none h y
      rw [List.cons_append]
      cases hhit : escapeRule none c r with
      | none =>
        rw [protectEscapes_cons_none hhit, protectEscapes_cons_none (hrule.trans hhit),
          ih (x := r) r.length (by omega) (hlater 0) rfl]
        rfl
      | some hit =>
        have hdrop : (r ++ '\x60' :: y).drop hit.extra = r.drop hit.extra ++ '\x60' :: y :=
          List.drop_append_of_le_length (extra_le_of_escapeRule hhit)
        rw [protectEscapes_cons_some hhit, protectEscapes_cons_some (hrule.trans hhit), hdrop,
          ih _ (by rw [List.length_drop]; omega) (hlater _) rfl, List.append_assoc]

theorem protectEscapes_append_of_not_mem (h : '\\' ∉ x) (y : Text) :
    protectEscapes (x ++ y) = x ++ protectEscapes y := by
  have hrule : ∀ before c r, c ≠ '\\' → escapeRule before c r = none :=
    fun before c r hc => if_neg hc
  obtain ⟨last, hlast⟩ := @replaceFrom_of_not_mem escapeRule '\\' hrule none x h
  rw [protectEscapes, replaceBy_eq_replaceFrom, hlast, replaceFrom_escapeRule]

theorem standIn_ne_backtick : ∀ n < escapable.length, standIn n ≠ '\x60' := by
  decide

theorem backtick_notMem_protectEscapes (h : '\x60' ∉ t) : '\x60' ∉ protectEscapes t := by
  refine replaceBy_of_hits (P := fun t => '\x60' ∉ t) (Q := fun t => '\x60' ∉ t) (fun t h => h)
    (fun s t hs ht => by simp [hs, ht]) ?_ h
  intro before x c r hit hxr _ hhit
  obtain ⟨n, s, rest, hs, htakes, htext⟩ := escapeRule_eq_some hhit
  have hn := standIn_ne_backtick n (List.getElem?_eq_some_iff.mp hs).1
  rw [htakes.split] at hxr
  simp only [List.mem_append, List.mem_cons, not_or] at hxr
  rw [htext, htakes.drop]
  exact ⟨hxr.1, by simpa using hn.symm, hxr.2.2⟩

/-! ### Putting the span aside -/

theorem codeSpan?_append (hne : k ≠ []) (hk : '\x60' ∉ k) (y : Text) :
    codeSpan? '\x60' (k ++ '\x60' :: y) = some k := by
  have hall : ∀ d ∈ k, decide (d ≠ '\x60') = true := fun d hd => by
    simpa using ne_of_mem_of_not_mem hd hk
  have hbody : (k ++ '\x60' :: y).takeWhile (· ≠ '\x60') = k := by
    rw [List.takeWhile_append_of_pos hall]
    simp
  have hrest : (k ++ '\x60' :: y).drop k.length = '\x60' :: y := List.drop_left
  rw [codeSpan?, if_pos rfl]
  simp only [hbody, hrest]
  simp [hne]

theorem stashSpans_codeSpan (hne : k ≠ []) (hk : '\x60' ∉ k) (number : Nat) (y : Text) :
    stashSpans number (segment codeStep () ('\x60' :: (k ++ '\x60' :: y))) =
      let p := stashSpans (number + 1) (segment codeStep () y)
      (codeMark number ++ p.1, element "code" k :: p.2) := by
  have hstep : codeStep () '\x60' (k ++ '\x60' :: y) = ⟨k.length + 1, some k, ()⟩ := by
    rw [codeStep, codeSpan?_append hne hk]
  have hdrop : (k ++ '\x60' :: y).drop (k.length + 1) = y := by
    rw [← List.drop_drop, List.drop_left]
    rfl
  simp [segment_cons, hstep, stashSpans, hdrop]

/-! ### Writing the span back -/

/-- What a part of the marked up text stands for: the mark of the first span is a hole. -/
def holeOf (stash : Stash) (p : Segment (Option Text)) : Option Text :=
  match p.label with
  | none => some p.text
  | some digits =>
    match digitsValue digits with
    | 0 => none
    | n + 1 => some ((stash[n]?).getD p.text)

theorem value_unstash_cons (k : Text) (stash : Stash) (p : Segment (Option Text)) :
    (unstash (k :: stash) p).value = (holeOf stash p).getD k := by
  rw [value_unstash, holeOf]
  cases p.label with
  | none => rfl
  | some digits => cases hn : digitsValue digits <;> simp [hn]

/-- Whether a number is too long does not depend on the stash. -/
theorem notes_unstash (stash : Stash) (p : Segment (Option Text)) :
    (unstash stash p).notes = (unstash [] p).notes := by
  unfold unstash
  cases p.label with
  | none => rfl
  | some digits => by_cases hlong : Json.maxDigits < digits.length <;> simp [hlong]

theorem eq_longNumeral_of_failed {stash : Stash} {p : Segment (Option Text)} {f : Fault}
    (h : .failed f ∈ (unstash stash p).notes) : ∃ n, f = .longNumeral n := by
  unfold unstash at h
  cases hlabel : p.label with
  | none => simp [hlabel] at h
  | some digits =>
    by_cases hlong : Json.maxDigits < digits.length
    · exact ⟨digits.length, by simpa [hlabel, hlong, Report.fail, Report.note] using h⟩
    · simp [hlabel, hlong] at h

theorem answer_restoreCode (stash : Stash) (t : Text) :
    (∃ n, ∀ k, (restoreCode (k :: stash) t).answer = .error (.longNumeral n)) ∨
      ∃ ps : Template, ∀ k, (restoreCode (k :: stash) t).answer = .ok (ps.fill k) := by
  have hnotes : ∀ k, (restoreCode (k :: stash) t).notes =
      (segment codeMarkStep () t).flatMap fun p => (unstash [] p).notes := by
    intro k
    simp [restoreCode, notes_unstash (k :: stash)]
  cases hfault : Report.firstFault
      ((segment codeMarkStep () t).flatMap fun p => (unstash [] p).notes) with
  | some f =>
    obtain ⟨note, hmem, hnote⟩ := List.exists_of_findSome?_eq_some hfault
    obtain ⟨p, -, hp⟩ := List.mem_flatMap.mp hmem
    obtain rfl : note = .failed f := by
      cases note <;> simp_all
    obtain ⟨n, rfl⟩ := eq_longNumeral_of_failed hp
    exact .inl ⟨n, fun k => by rw [Report.answer, hnotes, hfault]⟩
  | none =>
    refine .inr ⟨(segment codeMarkStep () t).map (holeOf stash), fun k => ?_⟩
    have hvalue : (restoreCode (k :: stash) t).value =
        Template.fill ((segment codeMarkStep () t).map (holeOf stash)) k := by
      simp [restoreCode, Template.fill, value_unstash_cons, List.flatMap_def, Function.comp_def]
    rw [Report.answer, hnotes, hfault, hvalue]

/-- Stand-ins outside of the holes are written as the marks that they stand for. -/
def Template.revert (ps : Template) : Template :=
  ps.map (Option.map revertEscapes)

theorem Template.revertEscapes_fill (ps : Template) (hk : ∀ c ∈ k, standsFor? c = none) :
    revertEscapes (ps.fill k) = ps.revert.fill k := by
  have hself : revertEscapes k = k := flatMap_eq_self fun c hc => by rw [hk c hc]; rfl
  rw [fill, fill, revert, revertEscapes, List.flatMap_assoc, List.flatMap_map]
  refine congrArg List.flatten (List.map_congr_left fun p _ => ?_)
  cases p with
  | none => exact hself
  | some t => rfl

/-! ### Any code span -/

/-- What a code span may hold so that no other rule reads it: no mark that ends it or escapes, and no
stand-in for an escaped mark. -/
structure IsOpaque (t : Text) : Prop where
  /-- There is something. -/
  ne_nil : t ≠ []
  /-- There is no backtick. -/
  backtick : '\x60' ∉ t
  /-- There is no backslash. -/
  backslash : '\\' ∉ t
  /-- There is no stand-in. -/
  standIns : ∀ c ∈ t, c.toNat < 0xe000 ∨ 0xe00d < c.toNat

/-- No character of ASCII is a stand-in. -/
theorem noStandIn_of_ascii (h : t.all (·.toNat < 0x80) = true) :
    ∀ c ∈ t, c.toNat < 0xe000 ∨ 0xe00d < c.toNat := by
  intro c hc
  have hascii : c.toNat < 0x80 := of_decide_eq_true (List.all_eq_true.mp h c hc)
  omega

theorem IsOpaque.escape (h : IsOpaque t) : IsOpaque (Html.escape t) := by
  exact ⟨Html.escape_ne_nil h.ne_nil, Html.not_mem_escape_of_not_mem (by decide) h.backtick,
    Html.not_mem_escape_of_not_mem (by decide) h.backslash,
    Html.forall_mem_escape (noStandIn_of_ascii (by decide)) h.standIns⟩

/-- No part of an element with such a content is a stand-in. -/
theorem IsOpaque.standsFor?_element (h : IsOpaque t) :
    ∀ c ∈ element "code" t, standsFor? c = none := by
  intro c hc
  apply standsFor?_eq_none
  have htag := noStandIn_of_ascii (t := "<code>".toList ++ "</code>".toList) (by decide)
  have helement : element "code" t = "<code>".toList ++ (t ++ "</code>".toList) := rfl
  rw [helement, List.mem_append, List.mem_append] at hc
  rcases hc with hc | hc | hc
  · exact htag c (List.mem_append_left _ hc)
  · exact h.standIns c hc
  · exact htag c (List.mem_append_right _ hc)

/-- The span is put aside with the number 0, whatever it holds. -/
theorem protectCode_codeSpan (hx : '\x60' ∉ x) (hend : x.getLast? ≠ some '\\') (hk : IsOpaque k)
    (y : Text) :
    protectCode [] (protectEscapes (x ++ '\x60' :: (k ++ '\x60' :: y))) =
      let p := stashSpans 1 (segment codeStep () (protectEscapes y))
      (protectEscapes x ++ (codeMark 0 ++ p.1), element "code" k :: p.2) := by
  have hspan : protectEscapes (k ++ '\x60' :: y) = k ++ '\x60' :: protectEscapes y := by
    rw [protectEscapes_append_of_not_mem hk.backslash,
      protectEscapes_cons_none (if_neg (by decide))]
  rw [protectEscapes_backtick hend, hspan, protectCode, List.length_nil, List.nil_append,
    stashSpans_append_of_not_mem (backtick_notMem_protectEscapes hx),
    stashSpans_codeSpan hk.ne_nil hk.backtick]

/-- What the inline rules get to read of a text. -/
def sourceOf (sanitize : Bool) (t : Text) : Text :=
  if sanitize then Html.escape t else t

theorem sourceOf_codeSpan (sanitize : Bool) (a c b : Text) :
    sourceOf sanitize (a ++ '\x60' :: (c ++ '\x60' :: b)) =
      sourceOf sanitize a ++ '\x60' :: (sourceOf sanitize c ++ '\x60' :: sourceOf sanitize b) := by
  have hbacktick : Html.escapeChar '\x60' = ['\x60'] := rfl
  cases sanitize <;> simp [sourceOf, hbacktick]

theorem IsOpaque.sourceOf (sanitize : Bool) (h : IsOpaque t) : IsOpaque (sourceOf sanitize t) := by
  cases sanitize
  · exact h
  · exact h.escape

/-- **Code spans are opaque.** Whatever the text around a code span, all spans there are rendered
alike: either no one gets an answer, because of a number around them that is too long, or there are
texts that do not depend on the span, and the answer is these texts with the span, as it is written,
between each two. -/
theorem render_codeSpan (s : References) (sanitize : Bool) {a : Text} (b : Text) (ha : '\x60' ∉ a)
    (hend : a.getLast? ≠ some '\\') :
    (∃ n, ∀ c, IsOpaque c →
      (render s sanitize (a ++ '\x60' :: (c ++ '\x60' :: b))).answer = .error (.longNumeral n)) ∨
    ∃ first more, ∀ c, IsOpaque c →
      (render s sanitize (a ++ '\x60' :: (c ++ '\x60' :: b))).answer =
        .ok ((element "code" (if sanitize then Html.escape c else c)).intercalate
          (first :: more)) := by
  have hx : '\x60' ∉ sourceOf sanitize a := by
    cases sanitize
    · exact ha
    · exact Html.not_mem_escape_of_not_mem (by decide) ha
  have hxend : (sourceOf sanitize a).getLast? ≠ some '\\' := by
    cases sanitize
    · exact hend
    · exact Html.getLast?_escape (by decide) hend
  -- The rules see the number of the span only.
  let rest := stashSpans 1 (segment codeStep () (protectEscapes (sourceOf sanitize b)))
  let marked := markUp s sanitize (protectEscapes (sourceOf sanitize a) ++ (codeMark 0 ++ rest.1))
  have hrender : ∀ c, IsOpaque c → render s sanitize (a ++ '\x60' :: (c ++ '\x60' :: b)) =
      restoreCode (element "code" (sourceOf sanitize c) :: rest.2) marked >>= fun restored =>
        pure (revertEscapes restored) := by
    intro c hc
    rw [render, ← sourceOf, sourceOf_codeSpan, protectCode_codeSpan hx hxend (hc.sourceOf sanitize)]
  rcases answer_restoreCode rest.2 marked with ⟨n, hfails⟩ | ⟨ps, hfills⟩
  · refine .inl ⟨n, fun c hc => ?_⟩
    rw [hrender c hc, Report.answer_bind, hfails]
    rfl
  · obtain ⟨first, more, hpieces⟩ := ps.revert.exists_fill_eq_intercalate
    refine .inr ⟨first, more, fun c hc => ?_⟩
    rw [hrender c hc, Report.answer_bind_of_ok (hfills _),
      ps.revertEscapes_fill (hc.sourceOf sanitize).standsFor?_element, hpieces]
    rfl

/-- A span between two stars, which its own star does not disturb. -/
theorem render_codeSpan_in_emphasis :
    '\x60' ∉ "*a ".toList ∧ "*a ".toList.getLast? ≠ some '\\' ∧ IsOpaque "b*".toList ∧
    ∃ first more, ∀ c, IsOpaque c →
      (render .empty true ("*a ".toList ++ '\x60' :: (c ++ '\x60' :: "*".toList))).answer =
        .ok ((element "code" (Html.escape c)).intercalate (first :: more)) := by
  have hopaque : IsOpaque "b*".toList := ⟨by decide, by decide, by decide, noStandIn_of_ascii (by decide)⟩
  refine ⟨by decide, by decide, hopaque, ?_⟩
  have hshort : ("*a ".toList ++ '\x60' :: ("b*".toList ++ '\x60' :: "*".toList)).length ≤ 10 := by
    decide
  have hclean := isClean_render (s := .empty) ⟨by simp [References.empty], by simp [References.empty]⟩
    true (Nat.le_trans (Nat.mul_le_mul_left 6 hshort) (by decide +kernel))
    (runsWithin_of_length_le (Nat.le_trans hshort (by decide)))
  rcases render_codeSpan .empty true "*".toList (a := "*a ".toList) (by decide) (by decide) with
    ⟨n, hfails⟩ | hfills
  · have hfault := hfails _ hopaque
    rw [hclean.answer_eq] at hfault
    cases hfault
  · exact hfills

end Markdown.Inline
