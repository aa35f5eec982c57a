import Markdown.Json.Reader
import Markdown.Proofs.Search

/-!
# How the parts of JSON are written

The scanner for JSON cuts a text into segments. `Json.Spells` tells what the text of a segment is: one
blank, one mark, a string between quotes, or a number or a word. A line feed is always a segment of
its own, since no string may hold one, so the segments can be split at each line feed
(`Json.AreSpelled.exists_split`).
-/

namespace Markdown.Json

open Text

variable {c : Char} {r t : Text}

/-- A character of a number or a word: a letter, a digit, a sign or a point. -/
def isScalarChar (c : Char) : Bool :=
  isAsciiLetter c || isAsciiDigit c || c = '+' || c = '-' || c = '.'

/-- What may stand between quotes: a backslash goes with the character behind it, and no quote stands
without one. -/
inductive IsBody : Text → Prop where
  /-- Nothing. -/
  | nil : IsBody []
  /-- A backslash and a character. -/
  | escape (c : Char) {r : Text} (h : IsBody r) : IsBody ('\\' :: c :: r)
  /-- Another character. -/
  | plain {c : Char} {r : Text} (hc : c ≠ '"' ∧ c ≠ '\\') (h : IsBody r) : IsBody (c :: r)

/-- How a segment that belongs to JSON is written. -/
inductive Spells : Lexeme → Text → Prop where
  /-- A blank. -/
  | blank {c : Char} (hc : isBlank c = true) : Spells .blank [c]
  /-- A mark. -/
  | mark {c : Char} (hc : isMark c = true) : Spells (.token (.mark c)) [c]
  /-- A string on one line. -/
  | string {body value : Text} (hbody : IsBody body) (hline : '\n' ∉ body) :
    Spells (.token (.string value)) ('"' :: (body ++ ['"']))
  /-- A number or a word. -/
  | scalar {t : Text} {value : Json} (h : ∀ c ∈ t, isScalarChar c = true) :
    Spells (.token (.scalar value)) t

/-! ### Strings -/

theorem exists_body_of_closedBody? {seen out t : Text} (h : closedBody? seen t = some out) :
    ∃ body r, IsBody body ∧ t = body ++ '"' :: r ∧ out = body.reverse ++ seen := by
  fun_induction closedBody? seen t with
  | case1 => cases h
  | case2 seen r =>
    obtain rfl := Option.some.inj h
    exact ⟨[], r, .nil, rfl, rfl⟩
  | case3 seen c r ih =>
    obtain ⟨body, r', hbody, rfl, rfl⟩ := ih h
    exact ⟨'\\' :: c :: body, r', .escape c hbody, rfl, by simp⟩
  | case4 seen c r hquote hescape ih =>
    obtain ⟨body, r', hbody, rfl, rfl⟩ := ih h
    refine ⟨c :: body, r', .plain ⟨hquote, ?_⟩ hbody, rfl, by simp⟩
    rintro rfl
    cases body <;> exact hescape _ _ rfl rfl

theorem exists_body_of_stringBody? {body t : Text} (h : stringBody? t = some body) :
    IsBody body ∧ ∃ r, t = body ++ '"' :: r := by
  obtain ⟨out, hout, rfl⟩ := Option.map_eq_some_iff.mp h
  obtain ⟨body, r, hbody, rfl, rfl⟩ := exists_body_of_closedBody? hout
  rw [List.append_nil, List.reverse_reverse]
  exact ⟨hbody, r, rfl⟩

/-- A string with a value has no line feed. -/
theorem newline_notMem_of_unitsOnto {done units : List Nat} {t : Text}
    (h : unitsOnto done t = some units) : '\n' ∉ t := by
  fun_induction unitsOnto done t with
  | case1 => exact List.not_mem_nil
  | case2 done a b c d r n hhex ih =>
    have hdigits : [a, b, c, d].all isHexDigit = true := by
      by_contra hdigits
      rw [hex4?, if_neg hdigits] at hhex
      cases hhex
    have hnot : '\n' ∉ [a, b, c, d] := fun hmem =>
      absurd (List.all_eq_true.mp hdigits _ hmem) (by decide)
    have hfront : '\n' ∉ '\\' :: 'u' :: [a, b, c, d] :=
      List.not_mem_cons_of_ne_of_not_mem (by decide)
        (List.not_mem_cons_of_ne_of_not_mem (by decide) hnot)
    exact List.not_mem_append hfront (ih h)
  | case3 => cases h
  | case4 done c r hhex e he ih =>
    have hc : '\n' ≠ c := by
      rintro rfl
      cases he
    exact List.not_mem_cons_of_ne_of_not_mem (by decide)
      (List.not_mem_cons_of_ne_of_not_mem hc (ih h))
  | case5 => cases h
  | case6 => cases h
  | case7 done c r hhex hescape hplain ih =>
    have hc : '\n' ≠ c := by
      rintro rfl
      exact hplain (by decide)
    exact List.not_mem_cons_of_ne_of_not_mem hc (ih h)

/-! ### Numbers -/

theorem isAsciiDigit_of_mem_leadingDigits (hc : c ∈ leadingDigits t) : isAsciiDigit c = true :=
  List.mem_takeWhile_imp hc

theorem isScalarChar_of_isAsciiDigit (hc : isAsciiDigit c = true) : isScalarChar c = true := by
  rw [isScalarChar, hc, Bool.or_true]
  rfl

theorem take_leadingDigits (t : Text) : t.take (leadingDigits t).length = leadingDigits t :=
  (List.prefix_iff_eq_take.mp (List.takeWhile_prefix _)).symm

/-- Characters of a number in a text, part by part. -/
theorem forall_mem_take_add {P : Char → Prop} {m n : Nat} (hm : ∀ c ∈ t.take m, P c)
    (hn : ∀ c ∈ (t.drop m).take n, P c) : ∀ c ∈ t.take (m + n), P c := by
  rw [List.take_add]
  exact List.forall_mem_append.mpr ⟨hm, hn⟩

theorem isScalarChar_of_mem_leadingDigits (t : Text) :
    ∀ c ∈ t.take (leadingDigits t).length, isScalarChar c = true := by
  rw [take_leadingDigits]
  exact fun c hc => isScalarChar_of_isAsciiDigit (isAsciiDigit_of_mem_leadingDigits hc)

theorem isScalarChar_of_fraction? {ds : Text} (h : fraction? t = some ds) :
    ∀ c ∈ t.take (ds.length + 1), isScalarChar c = true := by
  unfold fraction? at h
  split at h
  · next r =>
    split at h
    · cases h
    · obtain rfl := Option.some.inj h
      exact List.forall_mem_cons.mpr ⟨rfl, isScalarChar_of_mem_leadingDigits r⟩
  · cases h

theorem isScalarChar_of_exponent? {e : (Bool × Text) × Nat} (h : exponent? t = some e) :
    ∀ c ∈ t.take e.2, isScalarChar c = true := by
  -- behind the mark: digits, with or without a sign in front of them
  have hparts : ∀ {mark : Char} {r digits : Text} {negative : Bool} {size : Nat},
      (mark == 'e' || mark == 'E') = true →
      (∀ c ∈ r.take (size + digits.length), isScalarChar c = true) →
      (if digits.isEmpty then none
        else some ((negative, digits), size + 1 + digits.length)) = some e →
      ∀ c ∈ (mark :: r).take e.2, isScalarChar c = true := by
    intro mark r digits negative size hmark hr heq
    split at heq
    · cases heq
    · obtain rfl := Option.some.inj heq
      have hsize : size + 1 + digits.length = size + digits.length + 1 := by omega
      rw [Bool.or_eq_true, beq_iff_eq, beq_iff_eq] at hmark
      rw [hsize, List.take_succ_cons]
      refine List.forall_mem_cons.mpr ⟨?_, hr⟩
      rcases hmark with rfl | rfl <;> rfl
  cases t with
  | nil => cases h
  | cons mark r =>
    simp only [exponent?] at h
    split at h
    · next hmark =>
      split at h
      · next s =>
        refine hparts hmark ?_ h
        rw [Nat.add_comm, List.take_succ_cons]
        exact List.forall_mem_cons.mpr ⟨rfl, isScalarChar_of_mem_leadingDigits s⟩
      · next s =>
        refine hparts hmark ?_ h
        rw [Nat.add_comm, List.take_succ_cons]
        exact List.forall_mem_cons.mpr ⟨rfl, isScalarChar_of_mem_leadingDigits s⟩
      · refine hparts hmark ?_ h
        rw [Nat.zero_add]
        exact isScalarChar_of_mem_leadingDigits _
    · cases h

theorem isScalarChar_of_numeral? {n : Numeral} (h : numeral? t = some n) :
    0 < n.size ∧ ∀ c ∈ t.take n.size, isScalarChar c = true := by
  unfold numeral? at h
  extract_lets negative unsigned whole rest fraction fractionSize exponent exponentSize at h
  split at h
  · cases h
  · next hne =>
    obtain rfl := Option.some.inj h
    have hpositive : 0 < whole.length := List.length_pos_of_ne_nil (by simpa using hne)
    have hdrop : unsigned = t.drop (if negative then 1 else 0) := by
      show (if negative then t.drop 1 else t) = _
      split <;> rfl
    have hsign : ∀ c ∈ t.take (if negative then 1 else 0), isScalarChar c = true := by
      split
      · next hnegative =>
        cases t with
        | nil => exact fun c hc => absurd hc List.not_mem_nil
        | cons d r =>
          have hd : d = '-' := by simpa [negative] using hnegative
          rw [hd]
          exact List.forall_mem_cons.mpr ⟨rfl, fun c hc => absurd hc List.not_mem_nil⟩
      · exact fun c hc => absurd hc List.not_mem_nil
    have hwhole : ∀ c ∈ unsigned.take whole.length, isScalarChar c = true := by
      by_cases hzero : (unsigned.head? == some '0') = true
      · have hone : whole = ['0'] := if_pos hzero
        obtain ⟨r, hr⟩ := List.head?_eq_some_iff.mp (beq_iff_eq.mp hzero)
        rw [hone, hr]
        exact List.forall_mem_singleton.mpr rfl
      · have hdigits : whole = leadingDigits unsigned := if_neg hzero
        rw [hdigits]
        exact isScalarChar_of_mem_leadingDigits unsigned
    have hfraction : ∀ c ∈ rest.take fractionSize, isScalarChar c = true := by
      cases hsome : fraction? rest with
      | none =>
        have hsize : fractionSize = 0 := by simp only [fractionSize, fraction, hsome]
        rw [hsize]
        exact fun c hc => absurd hc List.not_mem_nil
      | some ds =>
        have hsize : fractionSize = ds.length + 1 := by simp only [fractionSize, fraction, hsome]
        rw [hsize]
        exact isScalarChar_of_fraction? hsome
    have hexponent : ∀ c ∈ (rest.drop fractionSize).take exponentSize, isScalarChar c = true := by
      cases hsome : exponent? (rest.drop fractionSize) with
      | none =>
        have hsize : exponentSize = 0 := by simp only [exponentSize, exponent, hsome]
        rw [hsize]
        exact fun c hc => absurd hc List.not_mem_nil
      | some e =>
        have hsize : exponentSize = e.2 := by simp only [exponentSize, exponent, hsome]
        rw [hsize]
        exact isScalarChar_of_exponent? hsome
    refine ⟨by dsimp only; omega, ?_⟩
    refine forall_mem_take_add (forall_mem_take_add (forall_mem_take_add hsign ?_) ?_) ?_
    · rwa [← hdrop]
    · rwa [← List.drop_drop, ← hdrop]
    · rwa [← List.drop_drop, ← List.drop_drop, ← hdrop]

/-! ### Segments -/

theorem isScalarChar_of_mem_keywords {k : Text × Json} (hk : k ∈ keywords) :
    k.1 ≠ [] ∧ ∀ c ∈ k.1, isScalarChar c = true := by
  have hall : (keywords.all fun k => !k.1.isEmpty && k.1.all isScalarChar) = true := rfl
  have hword := List.all_eq_true.mp hall k hk
  rw [Bool.and_eq_true, Bool.not_eq_true', List.isEmpty_eq_false_iff] at hword
  exact ⟨hword.1, List.all_eq_true.mp hword.2⟩

/-- A segment that is no junk is written as its label says. -/
theorem spells_lexStep (c : Char) (r : Text) :
    (lexStep () c r).label = .junk ∨
      Spells (lexStep () c r).label (c :: r.take (lexStep () c r).extra) := by
  unfold lexStep
  split
  · next hc => exact .inr (.blank hc)
  · split
    · next hc => exact .inr (.mark hc)
    · split
      · next hc =>
        obtain rfl := beq_iff_eq.mp hc
        split
        · exact .inl rfl
        · next body hbody =>
          split
          · next value hvalue =>
            obtain ⟨hwhole, s, rfl⟩ := exists_body_of_stringBody? hbody
            obtain ⟨units, hunits, -⟩ := Option.map_eq_some_iff.mp hvalue
            have htake : (body ++ '"' :: s).take (body.length + 1) = body ++ ['"'] := by
              rw [List.take_append, List.take_of_length_le (Nat.le_succ _), Nat.add_sub_cancel_left]
              rfl
            rw [htake]
            exact .inr (.string hwhole (newline_notMem_of_unitsOnto hunits))
          · exact .inl rfl
      · split
        · next k hk =>
          obtain ⟨hne, hchars⟩ := isScalarChar_of_mem_keywords (List.mem_of_find?_eq_some hk)
          have hprefix : k.1 <+: c :: r := by simpa using List.find?_some hk
          have htake : c :: r.take (k.1.length - 1) = k.1 := by
            rw [← List.take_succ_cons, Nat.sub_add_cancel (List.length_pos_of_ne_nil hne)]
            exact (List.prefix_iff_eq_take.mp hprefix).symm
          rw [htake]
          exact .inr (.scalar hchars)
        · split
          · exact .inl rfl
          · next n hn =>
            obtain ⟨hsize, hchars⟩ := isScalarChar_of_numeral? hn
            split
            · refine .inr (.scalar ?_)
              rwa [← List.take_succ_cons, Nat.sub_add_cancel hsize]
            · exact .inl rfl

/-- The tokens among segments. -/
def tokens (ps : List (Segment Lexeme)) : List Token :=
  ps.filterMap fun p =>
    match p.label with
    | .token t => some t
    | _ => none

/-- Segments that are written as their labels say. -/
def AreSpelled (ps : List (Segment Lexeme)) : Prop :=
  ∀ p ∈ ps, Spells p.label p.text

/-- If a text belongs to JSON, all its segments do. -/
theorem tokensOnto_eq_some {done ts : List Token} {ps : List (Segment Lexeme)}
    (h : tokensOnto done ps = some ts) :
    ts = done.reverse ++ tokens ps ∧ ∀ p ∈ ps, p.label ≠ .junk := by
  fun_induction tokensOnto done ps with
  | case1 done =>
    obtain rfl := Option.some.inj h
    exact ⟨by simp [tokens], by simp⟩
  | case2 done t r ih =>
    obtain ⟨rfl, hr⟩ := ih h
    exact ⟨by simp [tokens], List.forall_mem_cons.mpr ⟨by simp, hr⟩⟩
  | case3 done t s r ih =>
    obtain ⟨rfl, hr⟩ := ih h
    exact ⟨by simp [tokens], List.forall_mem_cons.mpr ⟨by simp, hr⟩⟩
  | case4 => cases h

/-- The segments of a JSON text. -/
theorem areSpelled_of_lex {ts : List Token} (h : lex t = some ts) :
    AreSpelled (lexemes t) ∧ (lexemes t).flatMap Segment.text = t ∧ ts = tokens (lexemes t) := by
  obtain ⟨rfl, hjunk⟩ := tokensOnto_eq_some h
  refine ⟨fun p hp => ?_, flatMap_text_segment _ _ _, rfl⟩
  obtain ⟨⟨⟩, c, r, rfl⟩ := exists_step_of_mem_segment lexStep hp
  exact (spells_lexStep c r).resolve_left (hjunk _ hp)

/-- A line feed is a segment of its own. -/
theorem Spells.eq_or_newline_notMem {x : Lexeme} {t : Text} (h : Spells x t) :
    (x = .blank ∧ t = ['\n']) ∨ '\n' ∉ t := by
  cases h with
  | @blank c hc =>
    by_cases hnewline : c = '\n'
    · exact .inl ⟨rfl, by rw [hnewline]⟩
    · exact .inr fun hmem => hnewline (List.mem_singleton.mp hmem).symm
  | mark hc =>
    refine .inr fun hmem => ?_
    rw [← List.mem_singleton.mp hmem] at hc
    cases hc
  | string hbody hline => exact .inr (by simp [hline])
  | scalar h => exact .inr fun hmem => absurd (h _ hmem) (by decide)

/-- Segments are split at a line feed. -/
theorem AreSpelled.exists_split {ps : List (Segment Lexeme)} (h : AreSpelled ps) {s u : Text}
    (htext : ps.flatMap Segment.text = s ++ '\n' :: u) (hs : '\n' ∉ s) :
    ∃ front back, ps = front ++ ⟨.blank, ['\n']⟩ :: back ∧
      front.flatMap Segment.text = s ∧ back.flatMap Segment.text = u := by
  induction ps generalizing s with
  | nil => simp at htext
  | cons p ps ih =>
    obtain ⟨hp, hps⟩ := List.forall_mem_cons.mp h
    rw [List.flatMap_cons] at htext
    obtain ⟨label, text⟩ := p
    rcases hp.eq_or_newline_notMem with ⟨hlabel, hline⟩ | hnone
    · obtain rfl : label = .blank := hlabel
      obtain rfl : text = ['\n'] := hline
      cases s with
      | nil => exact ⟨[], ps, rfl, rfl, (List.cons.inj htext).2⟩
      | cons c s =>
        have hc : c ≠ '\n' := ne_of_mem_of_not_mem List.mem_cons_self hs
        exact absurd (List.cons.inj htext).1 hc.symm
    · rcases List.append_eq_append_iff.mp htext with ⟨s', rfl, hrest⟩ | ⟨more, hmore, hrest⟩
      · obtain ⟨front, back, rfl, rfl, rfl⟩ :=
          ih hps hrest fun hmem => hs (List.mem_append_right _ hmem)
        exact ⟨⟨label, text⟩ :: front, back, rfl, rfl, rfl⟩
      · cases more with
        | nil =>
          obtain ⟨front, back, rfl, hfront, rfl⟩ := ih (s := []) hps hrest.symm List.not_mem_nil
          obtain rfl : text = s := hmore.trans (List.append_nil s)
          refine ⟨⟨label, text⟩ :: front, back, rfl, ?_, rfl⟩
          rw [List.flatMap_cons, hfront, List.append_nil]
        | cons d more =>
          obtain ⟨rfl, -⟩ := List.cons.inj hrest
          exact absurd (by rw [hmore]; simp) hnone

/-- A text that shows something has a token. -/
theorem AreSpelled.tokens_ne_nil {ps : List (Segment Lexeme)} (h : AreSpelled ps)
    (hvisible : allBlank (ps.flatMap Segment.text) = false) : tokens ps ≠ [] := by
  intro hnone
  have hblank : ∀ p ∈ ps, ∀ c ∈ p.text, Text.isBlank c = true := by
    intro p hp c hc
    have hlabel := List.filterMap_eq_nil_iff.mp hnone p hp
    obtain ⟨label, text⟩ := p
    cases h _ hp with
    | blank hd =>
      obtain rfl := List.mem_singleton.mp hc
      simp only [Json.isBlank, Bool.or_eq_true, beq_iff_eq] at hd
      rcases hd with ((rfl | rfl) | rfl) | rfl <;> rfl
    | mark | string | scalar => cases hlabel
  have hall : allBlank (ps.flatMap Segment.text) = true := by
    refine List.all_eq_true.mpr fun c hc => ?_
    obtain ⟨p, hp, hc⟩ := List.mem_flatMap.mp hc
    exact hblank p hp c hc
  rw [hvisible] at hall
  cases hall

end Markdown.Json
