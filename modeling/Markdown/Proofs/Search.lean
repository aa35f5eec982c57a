import Markdown.Text.Replace
import Mathlib.Data.List.Basic
import Mathlib.Data.List.TakeWhile

/-!
# Searching and replacing in texts

What the answers of the search functions say about the text that was searched, and how a
replacement goes on behind a hit. `Text.replaceBy_of_hits` is the induction over all hits of a rule:
what holds of the text and is kept at each hit holds of the result.
-/

namespace Markdown.Text

/-- Characters of which only one belongs to a class differ. -/
theorem ne_of_class {p : Char → Bool} {c d : Char} (hc : p c = true) (hd : p d = false) : c ≠ d := by
  rintro rfl
  rw [hc] at hd
  cases hd

/-- What holds of each character of a given text is decided by going through the text. -/
theorem forall_mem_of_all {P : Char → Prop} [DecidablePred P] {t : Text}
    (h : t.all (fun c => decide (P c)) = true) : ∀ c ∈ t, P c :=
  fun c hc => of_decide_eq_true (List.all_eq_true.mp h c hc)

/-! ### Searching -/

theorem after?_eq_some_iff {s t r : Text} : after? s t = some r ↔ t = s ++ r := by
  induction s generalizing t with
  | nil => simp [after?, List.isPrefixOf?, eq_comm]
  | cons a s ih =>
    cases t with
    | nil => simp [after?, List.isPrefixOf?]
    | cons b t =>
      simp only [after?, List.isPrefixOf?] at ih ⊢
      by_cases hab : a = b
      · subst hab
        simp [ih]
      · simp [hab, Ne.symm hab]

theorem drop_length_takeWhile (p : Char → Bool) (t : Text) :
    t.drop (t.takeWhile p).length = t.dropWhile p := by
  induction t with
  | nil => rfl
  | cons c t ih => by_cases hc : p c = true <;> simp [hc, ih]

theorem takeWhile_append_drop (p : Char → Bool) (t : Text) :
    t.takeWhile p ++ t.drop (t.takeWhile p).length = t := by
  rw [drop_length_takeWhile, List.takeWhile_append_dropWhile]

theorem of_mem_takeWhile {p : Char → Bool} {t : Text} {c : Char} (h : c ∈ t.takeWhile p) :
    p c = true :=
  List.mem_takeWhile_imp h

/-- The character that ends a run does not belong to it. -/
theorem not_of_dropWhile_eq_cons {p : Char → Bool} {t : Text} {c : Char} {r : Text}
    (h : t.dropWhile p = c :: r) : p c = false := by
  induction t with
  | nil => simp at h
  | cons a t ih =>
    by_cases ha : p a = true
    · exact ih (by simpa [List.dropWhile_cons, ha] using h)
    · obtain ⟨rfl, -⟩ : a = c ∧ t = r := by simpa [List.dropWhile_cons, ha] using h
      simpa using ha

theorem cutAt?_append {c : Char} {s : Text} (rest : Text) (h : c ∉ s) :
    cutAt? c (s ++ c :: rest) = some (s, rest) := by
  have hs : ∀ d ∈ s, decide (d ≠ c) = true := fun d hd => by
    simpa using ne_of_mem_of_not_mem hd h
  rw [cutAt?, List.dropWhile_append_of_pos hs, List.takeWhile_append_of_pos hs]
  simp

theorem cutAt?_eq_some {c : Char} {t before rest : Text} (h : cutAt? c t = some (before, rest)) :
    t = before ++ c :: rest ∧ c ∉ before := by
  unfold cutAt? at h
  split at h
  · cases h
  · next d r heq =>
    obtain ⟨rfl, rfl⟩ := Prod.mk.inj (Option.some.inj h)
    obtain rfl : d = c := by simpa using not_of_dropWhile_eq_cons heq
    refine ⟨?_, fun hmem => by simpa using of_mem_takeWhile hmem⟩
    rw [← heq, List.takeWhile_append_dropWhile]

theorem cut?_eq_some {s t before rest : Text} (h : cut? s t = some (before, rest)) :
    t = before ++ s ++ rest := by
  induction t generalizing before with
  | nil =>
    obtain ⟨rfl, rfl, rfl⟩ : s = [] ∧ [] = before ∧ [] = rest := by simpa [cut?] using h
    rfl
  | cons c r ih =>
    rw [cut?] at h
    split at h
    · next hafter =>
      obtain ⟨rfl, rfl⟩ := Prod.mk.inj (Option.some.inj h)
      exact after?_eq_some_iff.mp hafter
    · obtain ⟨p, hp, heq⟩ := Option.map_eq_some_iff.mp h
      obtain ⟨rfl, rfl⟩ := Prod.mk.inj heq
      rw [ih hp]
      rfl

theorem isPrefixOf_append_of_not_mem {s : Text} {m : Char} (hs : m ∉ s) (x y : Text) :
    s.isPrefixOf (x ++ m :: y) = s.isPrefixOf x := by
  induction x generalizing s with
  | nil =>
    cases s with
    | nil => rfl
    | cons d s => simp [List.isPrefixOf, (List.ne_of_not_mem_cons hs).symm]
  | cons c x ih =>
    cases s with
    | nil => rfl
    | cons d s => simp [List.isPrefixOf, ih (List.not_mem_of_not_mem_cons hs)]

theorem findIdx?_congr {α : Type} {l : List α} {p q : α → Bool} (h : ∀ a ∈ l, p a = q a) :
    l.findIdx? p = l.findIdx? q := by
  induction l with
  | nil => rfl
  | cons a l ih =>
    obtain ⟨ha, hl⟩ := List.forall_mem_cons.mp h
    rw [List.findIdx?_cons, List.findIdx?_cons, ha, ih hl]

/-- The shortest run that something closes: it is not empty, and its end is where it is closed. -/
theorem shortest?_eq_some {p : Char → Bool} {closes : Text → Bool} {t : Text} {n : Nat}
    (h : shortest? p closes t = some n) :
    0 < n ∧ n ≤ t.length ∧ (∀ c ∈ t.take n, p c = true) ∧ closes (t.drop n) = true := by
  induction t generalizing n with
  | nil => cases h
  | cons c r ih =>
    rw [shortest?] at h
    split at h
    · next hc =>
      split at h
      · next hr =>
        obtain rfl := Option.some.inj h
        simpa [hc] using hr
      · obtain ⟨k, hk, rfl⟩ := Option.map_eq_some_iff.mp h
        obtain ⟨-, hle, hall, hcloses⟩ := ih hk
        refine ⟨by omega, by simpa using hle, ?_, by simpa using hcloses⟩
        intro d hd
        rw [List.take_succ_cons] at hd
        rcases List.mem_cons.mp hd with rfl | hd
        · exact hc
        · exact hall d hd
    · cases h

/-! ### Replacing -/

theorem flatMap_eq_self {f : Char → Text} {t : Text} (h : ∀ c ∈ t, f c = [c]) : t.flatMap f = t := by
  induction t with
  | nil => rfl
  | cons c t ih =>
    obtain ⟨hc, ht⟩ := List.forall_mem_cons.mp h
    rw [List.flatMap_cons, hc, ih ht, List.singleton_append]

/-- If other characters become longer, a text keeps its length only if each character stays. -/
theorem length_flatMap_eq_iff {f : Char → Text} {t : Text}
    (hf : ∀ c, f c = [c] ∨ 1 < (f c).length) :
    (t.flatMap f).length = t.length ↔ ∀ c ∈ t, f c = [c] := by
  have hle : ∀ t : Text, t.length ≤ (t.flatMap f).length := by
    intro t
    induction t with
    | nil => exact Nat.le_refl 0
    | cons c r ih =>
      have hc : 1 ≤ (f c).length := by
        rcases hf c with hc | hc
        · rw [hc]
          exact Nat.le_refl 1
        · exact hc.le
      rw [List.flatMap_cons, List.length_append, List.length_cons]
      omega
  constructor
  · intro h
    induction t with
    | nil => simp
    | cons c r ih =>
      have hrest := hle r
      rw [List.flatMap_cons, List.length_append, List.length_cons] at h
      rcases hf c with hc | hlonger
      · rw [hc, List.length_singleton] at h
        exact List.forall_mem_cons.mpr ⟨hc, ih (by omega)⟩
      · omega
  · exact fun h => by rw [flatMap_eq_self h]

/-- So it stays the same only if each character does. -/
theorem flatMap_eq_self_iff {f : Char → Text} {t : Text}
    (hf : ∀ c, f c = [c] ∨ 1 < (f c).length) : t.flatMap f = t ↔ ∀ c ∈ t, f c = [c] :=
  ⟨fun h => (length_flatMap_eq_iff hf).mp (congrArg List.length h), flatMap_eq_self⟩

/-- The text with all replacements of a rule, behind a given character. -/
def replaceFrom (rule : Rule) (before : Option Char) (t : Text) : Text :=
  (segment (replaceStep rule) before t).flatMap fun p => p.label.getD p.text

theorem replaceBy_eq_replaceFrom (rule : Rule) (t : Text) :
    replaceBy rule t = replaceFrom rule none t := rfl

@[simp] theorem replaceFrom_nil (rule : Rule) (before : Option Char) :
    replaceFrom rule before [] = [] := by
  simp [replaceFrom]

theorem replaceFrom_cons_none {rule : Rule} {before : Option Char} {c : Char} {r : Text}
    (h : rule before c r = none) :
    replaceFrom rule before (c :: r) = c :: replaceFrom rule (some c) r := by
  have hstep : replaceStep rule before c r = ⟨0, none, some c⟩ := by rw [replaceStep, h]
  simp [replaceFrom, segment_cons, hstep]

theorem replaceFrom_cons_some {rule : Rule} {before : Option Char} {c : Char} {r : Text}
    {hit : Hit} (h : rule before c r = some hit) :
    replaceFrom rule before (c :: r) =
      hit.text ++ replaceFrom rule (c :: r.take hit.extra).getLast? (r.drop hit.extra) := by
  have hstep : replaceStep rule before c r =
      ⟨hit.extra, some hit.text, (c :: r.take hit.extra).getLast?⟩ := by rw [replaceStep, h]
  simp [replaceFrom, segment_cons, hstep]

/-- A rule that does not apply at a character. -/
def Rule.PassesOver (rule : Rule) (c : Char) : Prop :=
  ∀ before r, rule before c r = none

/-- A rule passes over a text of such characters. -/
theorem replaceFrom_of_passesOver {rule : Rule} {before : Option Char} {t : Text}
    (h : ∀ c ∈ t, rule.PassesOver c) :
    ∃ last, ∀ r, replaceFrom rule before (t ++ r) = t ++ replaceFrom rule last r := by
  induction t generalizing before with
  | nil => exact ⟨before, fun _ => rfl⟩
  | cons c t ih =>
    obtain ⟨hc, ht⟩ := List.forall_mem_cons.mp h
    obtain ⟨last, hlast⟩ := @ih (some c) ht
    refine ⟨last, fun r => ?_⟩
    rw [List.cons_append, replaceFrom_cons_none (hc before _), hlast]
    rfl

/-- A rule that applies at one character only passes over a text without it. -/
theorem replaceFrom_of_not_mem {rule : Rule} {mark : Char}
    (hrule : ∀ before c r, c ≠ mark → rule before c r = none) {before : Option Char} {t : Text}
    (h : mark ∉ t) :
    ∃ last, ∀ r, replaceFrom rule before (t ++ r) = t ++ replaceFrom rule last r :=
  replaceFrom_of_passesOver fun c hc before r => hrule before c r (ne_of_mem_of_not_mem hc h)

/-- A hit at the character `c` in front of `r` takes `old` and leaves `rest`. -/
structure Hit.Takes (hit : Hit) (c : Char) (r old rest : Text) : Prop where
  /-- What is taken and what is left are the text at the place. -/
  split : c :: r = old ++ rest
  /-- What is left. -/
  drop : r.drop hit.extra = rest

theorem Hit.Takes.take {hit : Hit} {c : Char} {r old rest : Text} (h : hit.Takes c r old rest) :
    c :: r.take hit.extra = old := by
  have hsplit := h.split
  rw [← List.take_append_drop hit.extra r, h.drop, ← List.cons_append] at hsplit
  exact List.append_cancel_right hsplit

theorem Hit.takes_of_length {hit : Hit} {c : Char} {r old rest : Text}
    (h : c :: r = old ++ rest) (hlen : hit.extra + 1 = old.length) : hit.Takes c r old rest := by
  refine ⟨h, ?_⟩
  have hdrop := congrArg (List.drop (hit.extra + 1)) h
  rwa [List.drop_succ_cons, hlen, List.drop_left] at hdrop

/-- **Induction over the hits of a rule.** Let `P` hold of a text. If at each hit `P` holds of the
text before it and behind it and `Q` of the replacement, then `Q` holds of the text with all
replacements. A text `x` before a hit has been looked at without a hit. -/
theorem replaceFrom_of_hits {P Q : Text → Prop} {rule : Rule}
    (hPQ : ∀ t, P t → Q t) (happend : ∀ s t, Q s → Q t → Q (s ++ t))
    (hhit : ∀ before x c r hit, P (x ++ c :: r) → (x ≠ [] → before = x.getLast?) →
      rule before c r = some hit → P x ∧ Q hit.text ∧ P (r.drop hit.extra))
    (before : Option Char) (x t : Text) (hbefore : x ≠ [] → before = x.getLast?)
    (h : P (x ++ t)) : Q (x ++ replaceFrom rule before t) := by
  induction hn : t.length using Nat.strongRecOn generalizing before x t with
  | ind n ih =>
    cases t with
    | nil => simpa using hPQ _ h
    | cons c r =>
      simp only [List.length_cons] at hn
      cases hrule : rule before c r with
      | none =>
        rw [replaceFrom_cons_none hrule, List.append_cons]
        exact ih r.length (by omega) (some c) (x ++ [c]) r (by simp) (by simpa using h) rfl
      | some hit =>
        obtain ⟨hx, htext, hrest⟩ := hhit before x c r hit h hbefore hrule
        rw [replaceFrom_cons_some hrule]
        refine happend _ _ (hPQ _ hx) (happend _ _ htext ?_)
        exact ih (r.drop hit.extra).length (by simp only [List.length_drop]; omega) _ [] _
          (by simp) hrest rfl

theorem replaceBy_of_hits {P Q : Text → Prop} {rule : Rule}
    (hPQ : ∀ t, P t → Q t) (happend : ∀ s t, Q s → Q t → Q (s ++ t))
    (hhit : ∀ before x c r hit, P (x ++ c :: r) → (x ≠ [] → before = x.getLast?) →
      rule before c r = some hit → P x ∧ Q hit.text ∧ P (r.drop hit.extra))
    {t : Text} (h : P t) : Q (replaceBy rule t) :=
  replaceFrom_of_hits hPQ happend hhit none [] t (by simp) h

end Markdown.Text
