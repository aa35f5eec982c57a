import Markdown.Json.Pretty
import Markdown.Proofs.JsonGrammar

/-!
# Strings and whole numbers of JSON

What the writer makes of a string or a whole number is one token to the scanner, whatever follows a
string (`Json.scan_quote`) and wherever a number may end (`Json.scan_ofInt`). All control characters of
a string are escaped, line feeds too (`Json.newline_notMem_quote`). A whole number with more than 4300
digits is no token.
-/

namespace Markdown

open Text

namespace Json

variable {c : Char} {rest : Text} {done : List Token}

/-! ### Strings -/

/-- How a character is written in a string: by a letter behind a backslash, by its number in four
digits, or as it is. -/
theorem escape_cases (c : Char) :
    (∃ e, escape c = ['\\', e] ∧ e ∈ ['"', '\\', '/', 'b', 'f', 'n', 'r', 't'] ∧ escaped? e = some c) ∨
    (c.toNat < 0x20 ∧ escape c = '\\' :: 'u' :: hexNumeral 4 c.toNat) ∨
    (0x20 ≤ c.toNat ∧ c ≠ '"' ∧ c ≠ '\\') ∧ escape c = [c] := by
  unfold escape
  split
  · exact .inl ⟨'"', rfl, by decide, rfl⟩
  · exact .inl ⟨'\\', rfl, by decide, rfl⟩
  · exact .inl ⟨'n', rfl, by decide, rfl⟩
  · exact .inl ⟨'r', rfl, by decide, rfl⟩
  · exact .inl ⟨'t', rfl, by decide, rfl⟩
  · exact .inl ⟨'b', rfl, by decide, rfl⟩
  · exact .inl ⟨'f', rfl, by decide, rfl⟩
  · next hquote hbackslash _ _ _ _ _ =>
    split
    · next hcontrol => exact .inr (.inl ⟨hcontrol, rfl⟩)
    · next hcontrol => exact .inr (.inr ⟨⟨Nat.le_of_not_lt hcontrol, hquote, hbackslash⟩, rfl⟩)

/-- The numbers of the control characters in four digits. -/
theorem hexNumeral_four {n : Nat} (hn : n < 0x20) :
    (hexNumeral 4 n).length = 4 ∧ (∀ d ∈ hexNumeral 4 n, isHexDigit d = true) ∧
      hexValue (hexNumeral 4 n) = n := by
  have hall : ((List.range 0x20).all fun n => (hexNumeral 4 n).length == 4 &&
      (hexNumeral 4 n).all isHexDigit && hexValue (hexNumeral 4 n) == n) = true := by
    decide +kernel
  have hdigits := List.all_eq_true.mp hall n (List.mem_range.mpr hn)
  simpa [and_assoc] using hdigits

theorem IsCharacters.escape {r : Text} (h : IsCharacters r) (c : Char) :
    IsCharacters (Json.escape c ++ r) := by
  rcases escape_cases c with ⟨e, hwrite, he, -⟩ | ⟨hcontrol, hwrite⟩ | ⟨hplain, hwrite⟩
  · rw [hwrite]
    exact .short he h
  · obtain ⟨hsize, hdigits, -⟩ := hexNumeral_four hcontrol
    rw [hwrite]
    exact .unit hsize hdigits h
  · rw [hwrite]
    exact .plain hplain h

theorem isCharacters_escaped (t : Text) : IsCharacters (t.flatMap escape) := by
  induction t with
  | nil => exact .nil
  | cons c t ih => exact ih.escape c

/-- What a character is written as is read as its number. -/
theorem unitsOnto_escape (units : List Nat) (c : Char) (r : Text) :
    unitsOnto units (escape c ++ r) = unitsOnto (c.toNat :: units) r := by
  rcases escape_cases c with ⟨e, hwrite, he, hchar⟩ | ⟨hcontrol, hwrite⟩ | ⟨⟨hlow, -, hbackslash⟩, hwrite⟩
  · have hunit : e ≠ 'u' := by
      rintro rfl
      cases hchar
    rw [hwrite]
    simp [unitsOnto, hunit, hchar]
  · obtain ⟨hsize, hdigits, hvalue⟩ := hexNumeral_four hcontrol
    rw [hwrite]
    generalize hexNumeral 4 c.toNat = ds at hsize hdigits hvalue
    match ds with
    | [d₁, d₂, d₃, d₄] =>
      have hhex : hex4? d₁ d₂ d₃ d₄ = some c.toNat := by
        rw [hex4?, if_pos (List.all_eq_true.mpr hdigits), hvalue]
      simp [unitsOnto, hhex]
  · rw [hwrite, List.singleton_append, unitsOnto.eq_def]
    simp [hbackslash, Nat.not_lt.mpr hlow]

theorem unitsOnto_escaped (units : List Nat) (t : Text) :
    unitsOnto units (t.flatMap escape) = some (units.reverse ++ t.map Char.toNat) := by
  induction t generalizing units with
  | nil => simp [unitsOnto]
  | cons c t ih => rw [List.flatMap_cons, unitsOnto_escape, ih]; simp

/-- No character is a surrogate. -/
theorem not_surrogate (c : Char) : ¬(0xd800 ≤ c.toNat ∧ c.toNat < 0xe000) := by
  have hvalid : c.toNat < 0xd800 ∨ 0xdfff < c.toNat ∧ c.toNat < 0x110000 := c.valid
  omega

theorem scalarOr_toNat (c : Char) : joinUnits.scalarOr c.toNat = c := by
  have hnone := not_surrogate c
  have hchar : (0xd800 ≤ c.toNat && c.toNat < 0xe000 : Bool) = false := by simpa using hnone
  simp [joinUnits.scalarOr, hchar]

theorem joinUnits_toNat (before t : Text) : joinUnits before (t.map Char.toNat) = before.reverse ++ t := by
  induction t generalizing before with
  | nil => simp [joinUnits]
  | cons c t ih =>
    cases t with
    | nil => simp [joinUnits, scalarOr_toNat]
    | cons d t =>
      have hnone := not_surrogate c
      have hpair : ¬(0xd800 ≤ c.toNat && c.toNat < 0xdc00 && 0xdc00 ≤ d.toNat && d.toNat < 0xe000) = true := by
        simp only [Bool.and_eq_true, decide_eq_true_eq]
        omega
      rw [List.map_cons, List.map_cons, joinUnits, if_neg hpair, scalarOr_toNat, ← List.map_cons, ih]
      simp

theorem decode?_escaped (t : Text) : decode? (t.flatMap escape) = some t := by
  simp [decode?, unitsOnto_escaped, joinUnits_toNat]

/-- A string is written without line feeds. -/
theorem newline_notMem_quote (t : Text) : '\n' ∉ quote t := by
  have hbody := newline_notMem_of_unitsOnto (unitsOnto_escaped [] t)
  simp [quote, hbody]

/-- A body ends at the quote behind it. -/
theorem closedBody?_append {body : Text} (h : IsBody body) (seen rest : Text) :
    closedBody? seen (body ++ '"' :: rest) = some (body.reverse ++ seen) := by
  induction h generalizing seen with
  | nil => rfl
  | escape c _ ih => simp [closedBody?, ih]
  | plain hc _ ih =>
    rw [List.cons_append, closedBody?.eq_def]
    simp [hc, ih]

theorem stringBody?_append {body : Text} (h : IsBody body) (rest : Text) :
    stringBody? (body ++ '"' :: rest) = some body := by
  simp [stringBody?, closedBody?_append h]

/-! ### Whole numbers -/

theorem ofInt_eq (n : Int) : ofInt n = (if n < 0 then ['-'] else []) ++ ofNat n.natAbs := by
  cases n with
  | ofNat n => simp [ofInt]
  | negSucc n => simp [ofInt]

theorem head_ofNat_ne_zero {n : Nat} (hn : 0 < n) : (ofNat n).head? ≠ some '0' := by
  induction n using Nat.strongRecOn with
  | ind n ih =>
    by_cases hsmall : n < 10
    · have hall : ∀ n < 10, 0 < n → (ofNat n).head? ≠ some '0' := by decide +kernel
      exact hall n hsmall hn
    · have hfront := ih (n / 10) (by omega) (by omega)
      obtain ⟨d, r, hd, -⟩ := exists_cons_ofNat (n / 10)
      rw [ofNat] at hd hfront
      rw [ofNat, Nat.toDigits_of_base_le (by decide) (by omega), hd]
      rwa [hd] at hfront

/-- The digits of a number end in front of what ends a number. -/
theorem leadingDigits_ofNat (n : Nat) (hrest : EndsNumber rest) :
    leadingDigits (ofNat n ++ rest) = ofNat n := by
  rw [leadingDigits, List.takeWhile_append_of_pos fun d hd => isAsciiDigit_of_mem_ofNat hd]
  cases rest with
  | nil => simp
  | cons c rest =>
    have hc := Highlight.Json.isDigit_of_endsNumber (hrest c rfl)
    have hdigit : isAsciiDigit c = false := by
      rw [Bool.eq_false_iff]
      intro h
      rw [isDigit_of_isAsciiDigit h] at hc
      cases hc
    simp [hdigit]

theorem fraction?_of_endsNumber (hrest : EndsNumber rest) : fraction? rest = none := by
  cases rest with
  | nil => rfl
  | cons c rest =>
    have hc := hrest c rfl
    simp only [endsNumber, Bool.and_eq_true, bne_iff_ne] at hc
    simp [fraction?, hc.1.1.2]

theorem exponent?_of_endsNumber (hrest : EndsNumber rest) : exponent? rest = none := by
  cases rest with
  | nil => rfl
  | cons c rest =>
    have hc := hrest c rfl
    simp only [endsNumber, Bool.and_eq_true, bne_iff_ne] at hc
    simp [exponent?, hc.1.2, hc.2]

/-- The digits of a number are its whole part: a zero in front stands alone. -/
theorem whole_ofNat (n : Nat) (hrest : EndsNumber rest) :
    (if (ofNat n ++ rest).head? == some '0' then ['0'] else leadingDigits (ofNat n ++ rest)) = ofNat n := by
  obtain ⟨d, r, hd, -⟩ := exists_cons_ofNat n
  rw [leadingDigits_ofNat n hrest]
  split
  · next hzero =>
    have hnone : n = 0 := by
      by_contra hne
      refine head_ofNat_ne_zero (Nat.pos_of_ne_zero hne) ?_
      simpa [hd] using hzero
    rw [hnone]
    rfl
  · rfl

theorem head_ofInt (n : Int) (rest : Text) :
    ((ofInt n ++ rest).head? == some '-') = decide (n < 0) := by
  obtain ⟨d, r, hd, hdigit⟩ := exists_cons_ofNat n.natAbs
  have hminus : d ≠ '-' := ne_of_class hdigit rfl
  rw [ofInt_eq]
  by_cases hn : n < 0
  · simp [hn]
  · simp [hn, hd, hminus]

/-- The numeral of a whole number is read as a whole. -/
theorem numeral?_ofInt (n : Int) (hrest : EndsNumber rest) :
    numeral? (ofInt n ++ rest) =
      some ⟨decide (n < 0), ofNat n.natAbs, none, none, (ofInt n).length⟩ := by
  have hunsigned : (if decide (n < 0) = true then (ofInt n ++ rest).drop 1 else ofInt n ++ rest) =
      ofNat n.natAbs ++ rest := by
    rw [ofInt_eq]
    by_cases hn : n < 0 <;> simp [hn]
  have hne : (ofNat n.natAbs).isEmpty = false :=
    List.isEmpty_eq_false_iff.mpr Nat.toDigits_ne_nil
  have hsize : (ofInt n).length = (if n < 0 then 1 else 0) + (ofNat n.natAbs).length := by
    rw [ofInt_eq]
    split <;> simp [Nat.add_comm]
  unfold numeral?
  simp only [head_ofInt, hunsigned, whole_ofNat _ hrest, hne, List.drop_left,
    fraction?_of_endsNumber hrest, List.drop_zero, exponent?_of_endsNumber hrest]
  simp [hsize]

/-- The value of a whole number, unless it has too many digits. -/
theorem value?_ofInt (n : Int) (size : Nat) :
    Numeral.value? ⟨decide (n < 0), ofNat n.natAbs, none, none, size⟩ =
      if maxDigits < (ofNat n.natAbs).length then none else some (.integer n) := by
  have hvalue : (if decide (n < 0) = true then -(n.natAbs : Int) else n.natAbs) = n := by
    by_cases hn : n < 0
    · simp only [hn, decide_true, if_true]
      omega
    · simp only [hn, decide_false, Bool.false_eq_true, if_false]
      omega
  simp only [Numeral.value?, digitsValue_ofNat, hvalue]

/-! ### Scanning -/

/-- The tokens of a text, behind others. -/
def scan (done : List Token) (t : Text) : Option (List Token) :=
  tokensOnto done (lexemes t)

theorem scan_of_step {x : Lexeme} {r : Text} (h : lexStep () c (r ++ rest) = ⟨r.length, x, ()⟩) :
    scan done (c :: r ++ rest) = tokensOnto done (⟨x, c :: r⟩ :: lexemes rest) := by
  rw [scan, lexemes, List.cons_append, segment_cons, h]
  simp [lexemes]

theorem scan_spaces {ws : Text} (hws : ∀ c ∈ ws, isBlank c = true) :
    scan done (ws ++ rest) = scan done rest := by
  induction ws with
  | nil => rfl
  | cons c ws ih =>
    obtain ⟨hc, hws⟩ := List.forall_mem_cons.mp hws
    have hstep : lexStep () c ([] ++ (ws ++ rest)) = ⟨0, .blank, ()⟩ := by simp [lexStep, hc]
    exact (scan_of_step hstep).trans (ih hws)

theorem scan_mark (hc : isMark c = true) : scan done (c :: rest) = scan (.mark c :: done) rest := by
  have hblank : isBlank c = false := by
    rcases eq_of_isMark hc with rfl | rfl | rfl | rfl | rfl | rfl <;> rfl
  have hstep : lexStep () c ([] ++ rest) = ⟨0, .token (.mark c), ()⟩ := by simp [lexStep, hblank, hc]
  exact scan_of_step hstep

theorem scan_quote (t : Text) : scan done (quote t ++ rest) = scan (.string t :: done) rest := by
  have hbody := stringBody?_append (isCharacters_escaped t).isBody rest
  have hstep : lexStep () '"' (t.flatMap escape ++ ['"'] ++ rest) =
      ⟨(t.flatMap escape ++ ['"']).length, .token (.string t), ()⟩ := by
    have hquote : isBlank '"' = false ∧ isMark '"' = false := by decide
    simp [lexStep, hquote, hbody, decode?_escaped]
  exact scan_of_step hstep

/-- A whole number begins like no other token. -/
theorem exists_cons_ofInt (n : Int) :
    ∃ c r, ofInt n = c :: r ∧ (isBlank c = false ∧ isMark c = false ∧ c ≠ '"') ∧
      ∀ rest, (keywords.find? fun k => k.1.isPrefixOf (c :: (r ++ rest))) = none := by
  obtain ⟨d, r, hd, hdigit⟩ := exists_cons_ofNat n.natAbs
  have hother : ∀ e, isAsciiDigit e = false → (e == d) = false := fun e he =>
    beq_eq_false_iff_ne.mpr (ne_of_class hdigit he).symm
  by_cases hn : n < 0
  · refine ⟨'-', d :: r, by simp [ofInt_eq, hn, hd], by decide, fun rest => ?_⟩
    simp [keywords, List.find?, List.isPrefixOf, hother 'I' rfl]
  · refine ⟨d, r, by simp [ofInt_eq, hn, hd], ⟨?_, ?_, ne_of_class hdigit rfl⟩, fun rest => ?_⟩
    · rw [Bool.eq_false_iff]
      intro hblank
      rcases eq_of_isBlank hblank with rfl | rfl | rfl | rfl <;> cases hdigit
    · rw [Bool.eq_false_iff]
      intro hmark
      rcases eq_of_isMark hmark with rfl | rfl | rfl | rfl | rfl | rfl <;> cases hdigit
    · simp [keywords, List.find?, List.isPrefixOf, hother 't' rfl, hother 'f' rfl, hother 'n' rfl,
        hother 'N' rfl, hother 'I' rfl, hother '-' rfl]

/-- A whole number is a token, or nothing of JSON if it has too many digits. -/
theorem scan_ofInt (n : Int) (hrest : EndsNumber rest) :
    scan done (ofInt n ++ rest) =
      if maxDigits < (ofNat n.natAbs).length then none else scan (.scalar (.integer n) :: done) rest := by
  obtain ⟨c, r, hwrite, ⟨hblank, hmark, hquote⟩, hword⟩ := exists_cons_ofInt n
  have hnumeral := numeral?_ofInt n hrest
  rw [hwrite, List.cons_append] at hnumeral
  by_cases hlong : maxDigits < (ofNat n.natAbs).length
  · have hstep : lexStep () c (r ++ rest) = ⟨r.length, .junk, ()⟩ := by
      simp [lexStep, hblank, hmark, hquote, hword, hnumeral, value?_ofInt, hlong]
    rw [hwrite, scan_of_step hstep, if_pos hlong]
    rfl
  · have hstep : lexStep () c (r ++ rest) = ⟨r.length, .token (.scalar (.integer n)), ()⟩ := by
      simp [lexStep, hblank, hmark, hquote, hword, hnumeral, value?_ofInt, hlong]
    rw [hwrite, scan_of_step hstep, if_neg hlong]
    rfl

end Json

end Markdown
