import Markdown.Text.Lowercase
import Mathlib.Data.List.Basic

/-!
# Lower case

A text in lower case is its own lower-case form (`Text.lower_lower`). The table of letters with a
lower-case partner says so: no partner is a letter of the table (`Text.CaseRun.settles`). The capital
sigma is the only letter that looks at its neighbours, and it is no lower-case form of any letter, so
what has been put in lower case no longer depends on what stands around it. Nothing that can be seen
becomes a blank, so a text without blanks at its ends has none there in lower case
(`Text.visible_ends_lower`).
-/

namespace Markdown.Text

variable {c d : Char} {t : Text}

/-! ### The table -/

/-- What the partner of a letter is not: a blank, a capital letter of ASCII, one of the two letters
beyond ASCII with rules of their own, or no character at all. -/
def unsettled : List (Nat × Nat) :=
  [(0x9, 0xd), (0x1c, 0x20), (0x41, 0x5a), (0x85, 0x85), (0xa0, 0xa0), (0x130, 0x130),
    (0x3a3, 0x3a3), (0x1680, 0x1680), (0x2000, 0x200a), (0x2028, 0x2029), (0x202f, 0x202f),
    (0x205f, 0x205f), (0x3000, 0x3000), (0xd800, 0xdfff)]

/-- The partners of a run leave out a range. -/
def CaseRun.leavesOut (r : CaseRun) (range : Nat × Nat) : Bool :=
  r.target + (r.last - r.first) < range.1 || range.2 < r.target

/-- The partners of a run lie in the gaps of another one, of which every second code point is a
letter. -/
def CaseRun.alternates (r q : CaseRun) : Bool :=
  (r.first == r.last || r.step % 2 == 0) && q.step % 2 == 0 && (r.target + q.first) % 2 == 1

/-- The partners of a run are characters in lower case. -/
def CaseRun.settles (r : CaseRun) : Bool :=
  r.target + (r.last - r.first) < 0x110000 && unsettled.all r.leavesOut &&
    lowercaseRuns.all fun q => r.leavesOut (q.first, q.last) || r.alternates q

/-- No run has a letter with a code point. -/
def isFixed (n : Nat) : Bool :=
  lowercaseRuns.all fun q => n < q.first || q.last < n

theorem settles_of_mem {r : CaseRun} (hr : r ∈ lowercaseRuns) : r.settles = true := by
  have hall : (lowercaseRuns.all CaseRun.settles) = true := by
    unfold CaseRun.settles lowercaseRuns readNumbers
    rw [String.toList_ofList]
    decide +kernel
  exact List.all_eq_true.mp hall r hr

/-- The forms that are not taken from the table. -/
theorem isFixed_of_mem {n : Nat} (hn : n ∈ [0x307, 0x3c2, 0x3c3]) : isFixed n = true := by
  have hall : ([0x307, 0x3c2, 0x3c3].all isFixed) = true := by
    unfold isFixed lowercaseRuns readNumbers
    rw [String.toList_ofList]
    decide +kernel
  exact List.all_eq_true.mp hall n hn

/-- A run has a letter with a code point. -/
def CaseRun.Has (r : CaseRun) (n : Nat) : Prop :=
  r.first ≤ n ∧ n ≤ r.last ∧ (n - r.first) % r.step = 0

theorem not_has_of_isFixed {n : Nat} (h : isFixed n = true) {q : CaseRun} (hq : q ∈ lowercaseRuns) :
    ¬q.Has n := by
  have hout := List.all_eq_true.mp h q hq
  simp only [Bool.or_eq_true, decide_eq_true_eq] at hout
  rintro ⟨hfirst, hlast, -⟩
  omega

/-- The partner of a letter lies in no range that its run leaves out. -/
theorem CaseRun.Has.leavesOut {r : CaseRun} {n : Nat} (h : r.Has n) {range : Nat × Nat}
    (hout : r.leavesOut range = true) :
    ¬(range.1 ≤ r.target + (n - r.first) ∧ r.target + (n - r.first) ≤ range.2) := by
  obtain ⟨hfirst, hlast, -⟩ := h
  simp only [CaseRun.leavesOut, Bool.or_eq_true, decide_eq_true_eq] at hout
  omega

/-- The partner of a letter lies in the gaps of a run with which its own one alternates. -/
theorem CaseRun.Has.alternates {r q : CaseRun} {n : Nat} (h : r.Has n)
    (halternates : r.alternates q = true) : ¬q.Has (r.target + (n - r.first)) := by
  obtain ⟨hfirst, hlast, hstep⟩ := h
  simp only [CaseRun.alternates, Bool.and_eq_true, Bool.or_eq_true, beq_iff_eq] at halternates
  obtain ⟨⟨hself, hother⟩, hparity⟩ := halternates
  have heven : (n - r.first) % 2 = 0 := by
    rcases hself with hone | htwo
    · omega
    · exact Nat.mod_eq_zero_of_dvd
        (Nat.dvd_trans (Nat.dvd_of_mod_eq_zero htwo) (Nat.dvd_of_mod_eq_zero hstep))
  rintro ⟨hq, -, hqstep⟩
  have hqeven : (r.target + (n - r.first) - q.first) % 2 = 0 :=
    Nat.mod_eq_zero_of_dvd
      (Nat.dvd_trans (Nat.dvd_of_mod_eq_zero hother) (Nat.dvd_of_mod_eq_zero hqstep))
  omega

/-! ### Characters in lower case -/

/-- A character that lower case leaves as it is, wherever it stands. -/
def IsLowered (c : Char) : Prop :=
  c.toNat ≠ 0x3a3 ∧ lowerChar c = [c]

/-- Outside the table only two kinds of characters change. -/
theorem lowerChar_eq_self (hcapital : ¬(0x41 ≤ c.toNat ∧ c.toNat ≤ 0x5a)) (hdotted : c.toNat ≠ 0x130)
    (hruns : ∀ q ∈ lowercaseRuns, ¬q.Has c.toNat) : lowerChar c = [c] := by
  unfold lowerChar
  split
  · have hstays : ('A' ≤ c && c ≤ 'Z') = false := by
      simpa [Char.le_def, UInt32.le_iff_toNat_le] using hcapital
    simp [lowerAscii, hstays]
  · rw [if_neg (by simpa using hdotted)]
    split
    · next q hq =>
      have hhas := List.find?_some hq
      simp only [Bool.and_eq_true, decide_eq_true_eq, beq_iff_eq] at hhas
      exact absurd ⟨hhas.1.1, hhas.1.2, hhas.2⟩ (hruns q (List.mem_of_find?_eq_some hq))
    · rfl

theorem toNat_ofNat {n : Nat} (hsmall : n < 0x110000) (hchar : ¬(0xd800 ≤ n ∧ n ≤ 0xdfff)) :
    (Char.ofNat n).toNat = n := by
  have hvalid : n.isValidChar := by
    unfold Nat.isValidChar
    omega
  rw [Char.ofNat, dif_pos hvalid]
  rfl

/-- The partner of a letter is in lower case and can be seen. -/
theorem isLowered_partner {r : CaseRun} (hr : r ∈ lowercaseRuns) {n : Nat} (hn : r.Has n) :
    IsLowered (Char.ofNat (r.target + (n - r.first))) ∧
      isBlank (Char.ofNat (r.target + (n - r.first))) = false := by
  have hsettles := settles_of_mem hr
  simp only [CaseRun.settles, Bool.and_eq_true, decide_eq_true_eq, List.all_eq_true,
    Bool.or_eq_true] at hsettles
  obtain ⟨⟨hsmall, hranges⟩, hruns⟩ := hsettles
  have hout := fun range hrange => hn.leavesOut (hranges range hrange)
  have hlast : n ≤ r.last := hn.2.1
  have hchar := toNat_ofNat (n := r.target + (n - r.first)) (by omega)
    (hout (0xd800, 0xdfff) (by simp [unsettled]))
  generalize Char.ofNat (r.target + (n - r.first)) = d at hchar ⊢
  rw [← hchar] at hout
  refine ⟨⟨fun hsigma => ?_, ?_⟩, ?_⟩
  · exact hout (0x3a3, 0x3a3) (by simp [unsettled]) ⟨Nat.le_of_eq hsigma.symm, Nat.le_of_eq hsigma⟩
  · refine lowerChar_eq_self (hout (0x41, 0x5a) (by simp [unsettled])) (fun hdotted => ?_)
      fun q hq hhas => ?_
    · exact hout (0x130, 0x130) (by simp [unsettled]) ⟨Nat.le_of_eq hdotted.symm, Nat.le_of_eq hdotted⟩
    · rw [hchar] at hhas
      rcases hruns q hq with hleaves | halternates
      · exact hn.leavesOut hleaves ⟨hhas.1, hhas.2.1⟩
      · exact hn.alternates halternates hhas
  · rw [Bool.eq_false_iff]
    intro hblank
    simp only [isBlank, Bool.or_eq_true, Bool.and_eq_true, decide_eq_true_eq, beq_iff_eq] at hblank
    simp only [unsettled, List.forall_mem_cons] at hout
    omega

/-- A form that is not taken from the table is in lower case and can be seen. -/
theorem isLowered_of_fixed {n : Nat} (hn : n ∈ [0x307, 0x3c2, 0x3c3]) :
    IsLowered (Char.ofNat n) ∧ isBlank (Char.ofNat n) = false := by
  have hruns := fun q hq => not_has_of_isFixed (isFixed_of_mem hn) (q := q) hq
  simp only [List.mem_cons, List.not_mem_nil, or_false] at hn
  rcases hn with rfl | rfl | rfl <;>
    exact ⟨⟨by decide, lowerChar_eq_self (by decide) (by decide) hruns⟩, rfl⟩

/-- A capital letter of ASCII becomes the small one. -/
theorem isLowered_lowerAscii (hcapital : 0x41 ≤ c.toNat ∧ c.toNat ≤ 0x5a) :
    IsLowered (lowerAscii c) ∧ isBlank (lowerAscii c) = false := by
  have hletter : lowerAscii c = Char.ofNat (c.toNat + 32) := by
    simp [lowerAscii, Char.le_def, UInt32.le_iff_toNat_le]
    exact fun h => absurd hcapital.2 (by have := h hcapital.1; omega)
  have hsmall : (lowerAscii c).toNat = c.toNat + 32 := by
    rw [hletter, toNat_ofNat (by omega) (by omega)]
  generalize lowerAscii c = d at hsmall ⊢
  refine ⟨⟨by omega, ?_⟩, ?_⟩
  · have hstays : ('A' ≤ d && d ≤ 'Z') = false := by
      simp [Char.le_def, UInt32.le_iff_toNat_le]
      omega
    have hascii : d.toNat < 0x80 := by omega
    simp [lowerChar, hascii, lowerAscii, hstays]
  · rw [Bool.eq_false_iff]
    intro hblank
    simp only [isBlank, Bool.or_eq_true, Bool.and_eq_true, decide_eq_true_eq, beq_iff_eq] at hblank
    omega

/-- The forms of a character: itself, or the small letter of a capital one in ASCII, or two letters for
one, or its partner in the table. -/
theorem lowerChar_cases (c : Char) :
    lowerChar c = [c] ∨
    ((0x41 ≤ c.toNat ∧ c.toNat ≤ 0x5a) ∧ lowerChar c = [lowerAscii c]) ∨
    lowerChar c = ['i', Char.ofNat 0x307] ∨
    ∃ r ∈ lowercaseRuns, r.Has c.toNat ∧
      lowerChar c = [Char.ofNat (r.target + (c.toNat - r.first))] := by
  unfold lowerChar
  split
  · by_cases hcapital : 0x41 ≤ c.toNat ∧ c.toNat ≤ 0x5a
    · exact .inr (.inl ⟨hcapital, rfl⟩)
    · have hstays : ('A' ≤ c && c ≤ 'Z') = false := by
        simpa [Char.le_def, UInt32.le_iff_toNat_le] using hcapital
      exact .inl (by simp [lowerAscii, hstays])
  split
  · exact .inr (.inr (.inl rfl))
  split
  · next r hr =>
    have hhas := List.find?_some hr
    simp only [Bool.and_eq_true, decide_eq_true_eq, beq_iff_eq] at hhas
    exact .inr (.inr (.inr ⟨r, List.mem_of_find?_eq_some hr, ⟨hhas.1.1, hhas.1.2, hhas.2⟩, rfl⟩))
  · exact .inl rfl

/-- The form of a character is in lower case, and what can be seen stays so. -/
theorem isLowered_of_mem_lowerChar (hc : c.toNat ≠ 0x3a3) (hd : d ∈ lowerChar c) :
    IsLowered d ∧ (isBlank c = false → isBlank d = false) := by
  rcases lowerChar_cases c with hself | ⟨hcapital, hform⟩ | hform | ⟨r, hr, hhas, hform⟩
  · rw [hself, List.mem_singleton] at hd
    rw [hd]
    exact ⟨⟨hc, hself⟩, id⟩
  · rw [hform, List.mem_singleton] at hd
    rw [hd]
    exact (isLowered_lowerAscii hcapital).imp_right fun h _ => h
  · rw [hform] at hd
    simp only [List.mem_cons, List.not_mem_nil, or_false] at hd
    rcases hd with rfl | rfl
    · exact ⟨⟨by decide, rfl⟩, fun _ => rfl⟩
    · exact (isLowered_of_fixed (by decide)).imp_right fun h _ => h
  · rw [hform, List.mem_singleton] at hd
    rw [hd]
    exact (isLowered_partner hr hhas).imp_right fun h _ => h

theorem lowerChar_ne_nil (c : Char) : lowerChar c ≠ [] := by
  rcases lowerChar_cases c with h | ⟨-, h⟩ | h | ⟨_, -, -, h⟩ <;> simp [h]

/-! ### Texts -/

/-- The form of a character in its place. -/
def formAt (seen : Text) (c : Char) (r : Text) : Text :=
  if c.toNat == 0x3a3 then
    if meetsCased seen && !meetsCased r then [Char.ofNat 0x3c2] else [Char.ofNat 0x3c3]
  else lowerChar c

theorem lowerAfter_cons (seen : Text) (c : Char) (r : Text) :
    lowerAfter seen (c :: r) = formAt seen c r ++ lowerAfter (c :: seen) r :=
  rfl

theorem formAt_ne_nil (seen : Text) (c : Char) (r : Text) : formAt seen c r ≠ [] := by
  unfold formAt
  split
  · split <;> exact List.cons_ne_nil _ _
  · exact lowerChar_ne_nil c

theorem isLowered_of_mem_formAt {seen r : Text} (hd : d ∈ formAt seen c r) :
    IsLowered d ∧ (isBlank c = false → isBlank d = false) := by
  unfold formAt at hd
  split at hd
  · split at hd <;> obtain rfl := List.mem_singleton.mp hd
    · exact (isLowered_of_fixed (by decide)).imp_right fun h _ => h
    · exact (isLowered_of_fixed (by decide)).imp_right fun h _ => h
  · next hc => exact isLowered_of_mem_lowerChar (by simpa using hc) hd

theorem isLowered_of_mem_lowerAfter {seen : Text} (hd : d ∈ lowerAfter seen t) : IsLowered d := by
  induction t generalizing seen with
  | nil => cases hd
  | cons c r ih =>
    rw [lowerAfter_cons, List.mem_append] at hd
    rcases hd with hd | hd
    · exact (isLowered_of_mem_formAt hd).1
    · exact ih hd

/-- Characters in lower case stay, whatever stands in front of them. -/
theorem lowerAfter_of_isLowered {seen : Text} (h : ∀ c ∈ t, IsLowered c) : lowerAfter seen t = t := by
  induction t generalizing seen with
  | nil => rfl
  | cons c r ih =>
    obtain ⟨⟨hsigma, hform⟩, hr⟩ := List.forall_mem_cons.mp h
    have hplace : formAt seen c r = [c] := by simp [formAt, hsigma, hform]
    rw [lowerAfter_cons, hplace, ih hr, List.singleton_append]

/-- **Lower case is reached at once.** -/
theorem lower_lower (t : Text) : lower (lower t) = lower t :=
  lowerAfter_of_isLowered fun _ hd => isLowered_of_mem_lowerAfter hd

/-- A text of ASCII in lower case. -/
theorem lower_of_isAscii (h : ∀ c ∈ t, c.toNat < 0x80) : lower t = t.map lowerAscii := by
  have hafter : ∀ seen, lowerAfter seen t = t.map lowerAscii := by
    induction t with
    | nil => exact fun _ => rfl
    | cons c r ih =>
      obtain ⟨hc, hr⟩ := List.forall_mem_cons.mp h
      have hsigma : c.toNat ≠ 0x3a3 := by omega
      have hplace : ∀ seen, formAt seen c r = [lowerAscii c] := fun seen => by
        simp [formAt, hsigma, lowerChar, hc]
      intro seen
      rw [lowerAfter_cons, hplace, ih hr]
      rfl
  exact hafter []

/-- The last forms of a text are those of its last character. -/
theorem exists_lowerAfter_concat (seen s : Text) (c : Char) :
    ∃ front seen', lowerAfter seen (s ++ [c]) = front ++ formAt seen' c [] := by
  induction s generalizing seen with
  | nil => exact ⟨[], seen, List.append_nil _⟩
  | cons b s ih =>
    obtain ⟨front, seen', h⟩ := ih (b :: seen)
    exact ⟨formAt seen b (s ++ [c]) ++ front, seen', by
      rw [List.cons_append, lowerAfter_cons, h, List.append_assoc]⟩

/-- A text that begins and ends with something visible does so in lower case. -/
theorem visible_ends_lower (hopens : ∀ c ∈ t.head?, isBlank c = false)
    (hcloses : ∀ c ∈ t.getLast?, isBlank c = false) :
    (∀ d ∈ (lower t).head?, isBlank d = false) ∧ ∀ d ∈ (lower t).getLast?, isBlank d = false := by
  constructor
  · cases t with
    | nil => exact fun d hd => by cases hd
    | cons c r =>
      obtain ⟨b, s, hform⟩ := List.exists_cons_of_ne_nil (formAt_ne_nil [] c r)
      have hb : b ∈ formAt [] c r := hform ▸ List.mem_cons_self
      have hhead : (lower (c :: r)).head? = some b := by
        rw [lower, lowerAfter_cons, hform]
        rfl
      intro d hd
      obtain rfl : b = d := Option.some.inj (hhead.symm.trans hd)
      exact (isLowered_of_mem_formAt hb).2 (hopens c rfl)
  · rcases List.eq_nil_or_concat t with rfl | ⟨s, c, rfl⟩
    · exact fun d hd => by cases hd
    · rw [List.concat_eq_append] at hcloses ⊢
      obtain ⟨front, seen', hlast⟩ := exists_lowerAfter_concat [] s c
      intro d hd
      rw [lower, hlast, List.getLast?_append_of_ne_nil _ (formAt_ne_nil seen' c [])] at hd
      exact (isLowered_of_mem_formAt (List.mem_of_getLast? hd)).2 (hcloses c (by simp))

end Markdown.Text
