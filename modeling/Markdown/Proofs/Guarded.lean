import Markdown.Html.Part
import Markdown.Html.Escape
import Markdown.Proofs.Search

/-!
# Guarded texts

A text is guarded by some openings if every `<` and every `&` in it is the first character of one of
them. Texts put together from guarded texts are guarded, and so is the end of a guarded text. The
beginning of a guarded text is guarded unless the cut goes through an opening; most rules of the
inline text cut at characters where no opening can be cut.
-/

namespace Markdown.Html

/-- A character that begins a tag or a character reference. -/
def isMark (c : Char) : Bool :=
  c = '<' || c = '&'

/-- Every mark in the text is the first character of one of the openings. -/
def Guarded (openings : List Text) (t : Text) : Prop :=
  ∀ c s, c :: s <:+ t → isMark c → ∃ o ∈ openings, o <+: c :: s

variable {openings : List Text} {s t : Text} {c : Char}

@[simp] theorem guarded_nil : Guarded openings [] := by
  intro c s h
  simp at h

theorem guarded_cons_iff :
    Guarded openings (c :: t) ↔
      (isMark c → ∃ o ∈ openings, o <+: c :: t) ∧ Guarded openings t := by
  constructor
  · exact fun h => ⟨h c t (List.suffix_refl _), fun d s hs => h d s (hs.trans (List.suffix_cons c t))⟩
  · rintro ⟨hc, ht⟩ d s hs
    rcases List.suffix_cons_iff.mp hs with heq | hs
    · obtain ⟨rfl, rfl⟩ := List.cons.inj heq
      exact hc
    · exact ht d s hs

/-- Whether every mark in the text is the first character of one of the openings. -/
def isGuarded (openings : List Text) : Text → Bool
  | [] => true
  | c :: t => (!isMark c || openings.any (·.isPrefixOf (c :: t))) && isGuarded openings t

theorem isGuarded_iff : isGuarded openings t = true ↔ Guarded openings t := by
  induction t with
  | nil => simp [isGuarded]
  | cons c t ih =>
    rw [isGuarded, Bool.and_eq_true, ih, guarded_cons_iff]
    cases hc : isMark c <;> simp [List.any_eq_true]

theorem guarded_of_isGuarded (h : isGuarded openings t = true) : Guarded openings t :=
  isGuarded_iff.mp h

theorem Guarded.mono {more : List Text} (h : Guarded openings t) (hsub : openings ⊆ more) :
    Guarded more t := by
  intro c s hs hc
  obtain ⟨o, ho, hstart⟩ := h c s hs hc
  exact ⟨o, hsub ho, hstart⟩

/-! ### Putting texts together -/

theorem Guarded.cons (hc : isMark c = false) (ht : Guarded openings t) :
    Guarded openings (c :: t) :=
  guarded_cons_iff.mpr ⟨fun h => by simp [hc] at h, ht⟩

theorem Guarded.append (hs : Guarded openings s) (ht : Guarded openings t) :
    Guarded openings (s ++ t) := by
  induction s with
  | nil => exact ht
  | cons c s ih =>
    obtain ⟨hc, hs⟩ := guarded_cons_iff.mp hs
    refine guarded_cons_iff.mpr ⟨fun h => ?_, ih hs⟩
    obtain ⟨o, ho, hstart⟩ := hc h
    exact ⟨o, ho, hstart.trans (List.prefix_append (c :: s) t)⟩

/-- A text without marks is guarded. -/
theorem guarded_of_no_mark (h : ∀ c ∈ t, isMark c = false) : Guarded openings t := by
  induction t with
  | nil => exact guarded_nil
  | cons c t ih => exact .cons (h c (by simp)) (ih fun d hd => h d (by simp [hd]))

theorem guarded_flatten {ts : List Text} (h : ∀ t ∈ ts, Guarded openings t) :
    Guarded openings ts.flatten := by
  induction ts with
  | nil => exact guarded_nil
  | cons t ts ih => exact (h t (by simp)).append (ih fun u hu => h u (by simp [hu]))

theorem guarded_flatMap {α : Type} {f : α → Text} {l : List α}
    (h : ∀ a ∈ l, Guarded openings (f a)) : Guarded openings (l.flatMap f) :=
  guarded_flatten (by simpa using h)

theorem guarded_intercalate {separator : Text} {ts : List Text}
    (hseparator : Guarded openings separator) (h : ∀ t ∈ ts, Guarded openings t) :
    Guarded openings (separator.intercalate ts) := by
  induction ts with
  | nil => exact guarded_nil
  | cons t ts ih =>
    have ht := h t (by simp)
    cases ts with
    | nil => simpa [List.intercalate] using ht
    | cons u ts =>
      rw [List.intercalate_cons_cons, List.append_assoc]
      exact ht.append (hseparator.append (ih fun v hv => h v (by simp [hv])))

/-! ### Cutting texts -/

theorem Guarded.right (h : Guarded openings (s ++ t)) : Guarded openings t :=
  fun c r hr => h c r (hr.trans (List.suffix_append s t))

theorem Guarded.tail (h : Guarded openings (c :: t)) : Guarded openings t :=
  (guarded_cons_iff.mp h).2

/-- The text before a cut that goes through no opening. -/
theorem Guarded.left (h : Guarded openings (s ++ t))
    (hcut : ∀ u v, u ++ v ∈ openings → u ≠ [] → v ≠ [] → u <:+ s → v <+: t → False) :
    Guarded openings s := by
  intro c r hr hc
  obtain ⟨x, rfl⟩ := hr
  have hsuffix : c :: (r ++ t) <:+ x ++ c :: r ++ t := ⟨x, by simp⟩
  obtain ⟨o, ho, hstart⟩ := h c (r ++ t) hsuffix hc
  rw [← List.cons_append] at hstart
  rcases List.prefix_or_prefix_of_prefix hstart (List.prefix_append (c :: r) t) with hle | ⟨v, rfl⟩
  · exact ⟨o, ho, hle⟩
  · have hv : v <+: t := (List.prefix_append_right_inj (c :: r)).mp hstart
    by_cases hnil : v = []
    · exact ⟨_, ho, by simp [hnil]⟩
    · exact (hcut _ _ ho (by simp) hnil ⟨x, rfl⟩ hv).elim

/-- No opening can be cut in front of the character. -/
def Cuts (openings : List Text) (c : Char) : Prop :=
  ∀ o ∈ openings, c ∉ o.tail

/-- Whether no opening can be cut in front of some characters. -/
def areCuts (openings : List Text) (marks : List Char) : Bool :=
  marks.all fun c => openings.all fun o => !o.tail.contains c

theorem cuts_of_areCuts {marks : List Char} (h : areCuts openings marks = true) (hc : c ∈ marks) :
    Cuts openings c := by
  intro o ho hmem
  have hnot := List.all_eq_true.mp (List.all_eq_true.mp h c hc) o ho
  simp [hmem] at hnot

theorem Guarded.before (h : Guarded openings (s ++ c :: t)) (hc : Cuts openings c) :
    Guarded openings s := by
  refine h.left fun u v ho hu hv _ hstart => hc _ ho ?_
  obtain ⟨d, v, rfl⟩ := List.exists_cons_of_ne_nil hv
  obtain ⟨rfl, -⟩ := List.cons_prefix_cons.mp hstart
  rw [List.tail_append_of_ne_nil hu]
  simp

/-- A text behind which a guarded text goes on with one of some texts that cannot be inside an
opening. -/
theorem Guarded.before_append {m : Text} (h : Guarded openings (s ++ (m ++ t))) (hm : m ≠ [])
    (hc : ∀ c ∈ m, Cuts openings c) : Guarded openings s := by
  obtain ⟨c, m, rfl⟩ := List.exists_cons_of_ne_nil hm
  exact h.before (hc c (by simp))

/-- The text up to a character that can only be the last one of an opening. -/
theorem Guarded.behind (h : Guarded openings (s ++ t)) (hs : s.getLast? = some c)
    (hc : ∀ o ∈ openings, c ∉ o.dropLast) : Guarded openings s := by
  refine h.left fun u v ho hu hv hsuffix _ => hc _ ho ?_
  have hlast : u.getLast? = some c := by
    obtain ⟨x, rfl⟩ := hsuffix
    obtain ⟨d, hd⟩ := Option.ne_none_iff_exists'.mp (mt List.getLast?_eq_none_iff.mp hu)
    rwa [List.getLast?_append, hd, Option.some_or, ← hd] at hs
  rw [List.dropLast_append_of_ne_nil hv]
  exact List.mem_append_left _ (List.mem_of_getLast? hlast)

/-- Replacing parts of a guarded text by guarded texts, at places where no opening is cut. -/
theorem Guarded.replaceBy {more : List Text} {rule : Text.Rule} (hsub : openings ⊆ more)
    (hhit : ∀ before x c r hit, Guarded openings (x ++ c :: r) →
      (x ≠ [] → before = x.getLast?) → rule before c r = some hit →
      Guarded openings x ∧ Guarded more hit.text)
    (h : Guarded openings t) : Guarded more (Text.replaceBy rule t) := by
  refine Text.replaceBy_of_hits (fun t ht => ht.mono hsub) (fun _ _ => .append) ?_ h
  intro before x c r hit hsource hbefore hrule
  obtain ⟨hx, htext⟩ := hhit before x c r hit hsource hbefore hrule
  refine ⟨hx, htext, ?_⟩
  have hr : Guarded openings r := hsource.right.tail
  rw [← List.take_append_drop hit.extra r] at hr
  exact hr.right

/-- The same for a rule whose hits begin with a character in front of which no opening is cut. -/
theorem Guarded.replaceBy_of_cuts {more : List Text} {rule : Text.Rule} (hsub : openings ⊆ more)
    (hhit : ∀ before c r hit, Guarded openings (c :: r) → rule before c r = some hit →
      Cuts openings c ∧ Guarded more hit.text)
    (h : Guarded openings t) : Guarded more (Text.replaceBy rule t) := by
  refine h.replaceBy hsub fun before x c r hit hsource _ hrule => ?_
  obtain ⟨hc, htext⟩ := hhit before c r hit hsource.right hrule
  exact ⟨hsource.before hc, htext⟩

/-- Characters may be replaced one by one if no opening changes. -/
theorem Guarded.flatMap {f : Char → Text} (hopenings : ∀ o ∈ openings, ∀ c ∈ o, f c = [c])
    (hf : ∀ c, f c = [c] ∨ Guarded openings (f c)) (h : Guarded openings t) :
    Guarded openings (t.flatMap f) := by
  induction t with
  | nil => exact guarded_nil
  | cons c t ih =>
    obtain ⟨hc, ht⟩ := guarded_cons_iff.mp h
    rcases hf c with heq | hfc
    · rw [List.flatMap_cons, heq, List.singleton_append]
      refine guarded_cons_iff.mpr ⟨fun hmark => ?_, ih ht⟩
      obtain ⟨o, ho, r, hr⟩ := hc hmark
      refine ⟨o, ho, r.flatMap f, ?_⟩
      rw [← List.singleton_append, ← heq, ← List.flatMap_cons, ← hr, List.flatMap_append,
        Text.flatMap_eq_self (hopenings o ho)]
    · exact hfc.append (ih ht)

/-! ### Tags and texts -/

/-- A part ends with the text, in front of `<` or with `>`. -/
theorem partStep_ends (c : Char) (r : Text) :
    let n := (partStep () c r).extra
    r.drop n = [] ∨ (∃ rest, r.drop n = '<' :: rest) ∨ (c :: r.take n).getLast? = some '>' := by
  unfold partStep
  split
  · next h =>
    simp only [Bool.and_eq_true, decide_eq_true_eq] at h
    obtain ⟨d, rest, hrest⟩ : ∃ d rest, r.dropWhile (· ≠ '>') = d :: rest := by
      refine List.exists_cons_of_ne_nil fun hnil => ?_
      have := List.dropWhile_eq_nil_iff.mp hnil '>' h.2
      simp at this
    obtain rfl : d = '>' := by simpa using Text.not_of_dropWhile_eq_cons hrest
    right
    right
    have htake : r.take ((r.takeWhile (· ≠ '>')).length + 1) = r.takeWhile (· ≠ '>') ++ ['>'] := by
      rw [List.take_add, Text.drop_length_takeWhile, hrest,
        ← List.prefix_iff_eq_take.mp (List.takeWhile_prefix _)]
      rfl
    rw [htake, ← List.cons_append, List.getLast?_concat]
  · dsimp only
    split
    · rw [Text.drop_length_takeWhile]
      cases hrest : r.dropWhile (· ≠ '<') with
      | nil => exact .inl rfl
      | cons d rest =>
        obtain rfl : d = '<' := by simpa using Text.not_of_dropWhile_eq_cons hrest
        exact .inr (.inl ⟨rest, rfl⟩)
    · exact .inl (List.drop_length)

/-- The parts of a guarded text are guarded if openings do not go on behind `>` and have `<` only at
their start. -/
theorem Guarded.of_mem_parts (h : Guarded openings t) (hlt : Cuts openings '<')
    (hgt : openings.all (fun o => !o.dropLast.contains '>') = true) {p : Text.Segment Part} (hp : p ∈ parts t) :
    Guarded openings p.text := by
  unfold parts at hp
  induction hn : t.length using Nat.strongRecOn generalizing t with
  | ind n ih =>
    cases t with
    | nil => simp at hp
    | cons c r =>
      rw [Text.segment_cons, List.mem_cons] at hp
      have hsplit : c :: r = c :: r.take (partStep () c r).extra ++
          r.drop (partStep () c r).extra := by rw [List.cons_append, List.take_append_drop]
      rcases hp with rfl | hp
      · rw [hsplit] at h
        rcases partStep_ends c r with hrest | ⟨rest, hrest⟩ | hlast
        · rwa [hrest, List.append_nil] at h
        · rw [hrest] at h
          exact h.before hlt
        · exact h.behind hlast fun o ho => by simpa using List.all_eq_true.mp hgt o ho
      · rw [hsplit] at h
        refine ih _ ?_ h.right hp rfl
        simp only [List.length_cons, List.length_drop] at hn ⊢
        omega

end Markdown.Html
