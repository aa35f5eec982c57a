import Markdown.FromHtml.Mark
import Markdown.Text.Letters

/-!
# Classes of characters

How the classes of characters lie to each other. The tables of letters, digits and numerals leave out all
blanks and the zero-width space, so every word character can be seen (`Text.isBlank_of_isWord`).
-/

namespace Markdown.Text

open FromHtml (zeroWidthSpace)

variable {c : Char}

theorem isDigit_of_isAsciiDigit (h : isAsciiDigit c = true) : isDigit c = true := by
  have hsmall : c.toNat < 0x80 := by
    simp [isAsciiDigit, Char.le_def, UInt32.le_iff_toNat_le] at h
    omega
  simp [isDigit, digitValue?, hsmall, h]

theorem isAsciiDigit_of_mem_ofNat {n : Nat} {c : Char} (hc : c ∈ ofNat n) :
    isAsciiDigit c = true := by
  have := Nat.isDigit_of_mem_toDigits (by decide) (by decide) hc
  simpa [Char.isDigit, isAsciiDigit, Char.le_def] using this

theorem exists_cons_ofNat (n : Nat) : ∃ d r, ofNat n = d :: r ∧ isAsciiDigit d = true := by
  obtain ⟨d, r, hd⟩ := List.exists_cons_of_ne_nil (Nat.toDigits_ne_nil (n := n) (b := 10))
  refine ⟨d, r, hd, isAsciiDigit_of_mem_ofNat (n := n) ?_⟩
  rw [ofNat, hd]
  exact List.mem_cons_self

theorem ofNat_injective : Function.Injective ofNat := fun m n h => by
  simpa [ofNat, Nat.ofDigitChars_ten_toDigits] using congrArg (Nat.ofDigitChars 10 · 0) h

theorem digitsValue_ofNat (n : Nat) : digitsValue (ofNat n) = n := by
  have hdigits : ∀ (t : Text) (value : Nat), (∀ c ∈ t, isAsciiDigit c = true) →
      t.foldl (fun n c => 10 * n + (digitValue? c).getD 0) value = Nat.ofDigitChars 10 t value := by
    intro t
    induction t with
    | nil => simp
    | cons c r ih =>
      intro value h
      have hc := h c List.mem_cons_self
      have hsmall : c.toNat < 0x80 := by
        simp [isAsciiDigit, Char.le_def, UInt32.le_iff_toNat_le] at hc
        omega
      rw [List.foldl_cons, ih _ fun d hd => h d (List.mem_cons_of_mem c hd),
        Nat.ofDigitChars_cons]
      simp [digitValue?, hsmall, hc]
  rw [digitsValue, hdigits _ _ fun c hc => isAsciiDigit_of_mem_ofNat hc, ofNat,
    Nat.ofDigitChars_ten_toDigits]

theorem isDigit_of_isAsciiLetter (h : isAsciiLetter c = true) : isDigit c = false := by
  have hletter : c.toNat < 0x80 ∧ isAsciiDigit c = false := by
    simp [isAsciiLetter, isAsciiDigit, Char.le_def, UInt32.le_iff_toNat_le] at h ⊢
    omega
  simp [isDigit, digitValue?, hletter]

theorem isWord_of_isAsciiLetter (h : isAsciiLetter c = true) : isWord c = true := by
  have hsmall : c.toNat < 0x80 := by
    simp [isAsciiLetter, Char.le_def, UInt32.le_iff_toNat_le] at h
    omega
  simp [isWord, hsmall, h]

/-- A blank or the zero-width space. -/
def isUnseen (c : Char) : Bool :=
  isBlank c || c = zeroWidthSpace

/-- Whether the ranges of a table leave out what is unseen beyond ASCII. -/
def leavesOutUnseen (ranges : List (Nat × Nat)) : Bool :=
  ranges.all fun r =>
    [(0x85, 0x85), (0xa0, 0xa0), (0x1680, 0x1680), (0x2000, 0x200b), (0x2028, 0x2029),
      (0x202f, 0x202f), (0x205f, 0x205f), (0x3000, 0x3000)].all fun b => r.2 < b.1 || b.2 < r.1

theorem inRanges_of_isUnseen {ranges : List (Nat × Nat)} (h : leavesOutUnseen ranges = true)
    (hlarge : 0x80 ≤ c.toNat) (hunseen : isUnseen c = true) :
    inRanges ranges c = false := by
  have hwidth : zeroWidthSpace.toNat = 0x200b := rfl
  rw [inRanges, List.any_eq_false]
  intro r hr
  have hout := List.all_eq_true.mp h r hr
  simp only [List.all_cons, List.all_nil, Bool.and_eq_true, Bool.or_eq_true, decide_eq_true_eq,
    Bool.and_true] at hout ⊢
  simp only [isUnseen, isBlank, Bool.and_eq_true, Bool.or_eq_true, decide_eq_true_eq, beq_iff_eq,
    ← Char.toNat_inj, hwidth] at hunseen
  omega

/-- All word characters are seen. -/
theorem isUnseen_of_isWord (h : isWord c = true) : isUnseen c = false := by
  have hletters : leavesOutUnseen letterRanges = true := by
    unfold letterRanges readRanges readNumbers
    rw [String.toList_ofList]
    decide +kernel
  have hdigits : leavesOutUnseen digitRanges = true := by
    unfold digitRanges readRanges readNumbers
    rw [String.toList_ofList]
    decide +kernel
  have hnumerals : leavesOutUnseen numeralRanges = true := by
    unfold numeralRanges readRanges readNumbers
    rw [String.toList_ofList]
    decide +kernel
  rw [Bool.eq_false_iff]
  intro hunseen
  unfold isWord at h
  split at h
  · have hwidth : zeroWidthSpace.toNat = 0x200b := rfl
    simp [isAsciiLetter, isAsciiDigit, isUnseen, isBlank, Char.le_def, ← Char.toNat_inj,
      UInt32.le_iff_toNat_le, hwidth] at h hunseen
    omega
  · next hlarge =>
    have hlarge := Nat.le_of_not_lt hlarge
    rw [inRanges_of_isUnseen hletters hlarge hunseen, inRanges_of_isUnseen hdigits hlarge hunseen,
      inRanges_of_isUnseen hnumerals hlarge hunseen] at h
    cases h

theorem isBlank_of_isWord (h : isWord c = true) : isBlank c = false := by
  have hseen := isUnseen_of_isWord h
  simp only [isUnseen, Bool.or_eq_false_iff] at hseen
  exact hseen.1

theorem ne_zeroWidthSpace_of_isWord (h : isWord c = true) : c ≠ zeroWidthSpace := by
  have hseen := isUnseen_of_isWord h
  simp only [isUnseen, Bool.or_eq_false_iff, decide_eq_false_iff_not] at hseen
  exact hseen.2

end Markdown.Text
