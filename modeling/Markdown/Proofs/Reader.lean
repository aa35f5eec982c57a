import Markdown.Html.Escape
import Markdown.Text.Letters

/-!
# Reading the tags of HTML

The rule by which HTML text is read: a tag is `<`, a name, attributes with values in double quotes,
an optional `/`, and `>`; a value goes on to the next double quote. `Html.Contained` says that a text
can be read to its end in this way, with no attributes but those the renderer uses.
-/

namespace Markdown.Html

open Text

/-- The attributes of inline tags. -/
def attributeNames : List Text :=
  ["href".toList, "src".toList, "alt".toList, "title".toList, "id".toList, "class".toList,
    "style".toList]

/-- A character of the name of a tag or of an attribute. -/
def isTagChar (c : Char) : Bool :=
  isAsciiLetter c || isAsciiDigit c || c = '-'

/-- Where a reader of HTML stands. -/
inductive Reader where
  /-- Outside of tags. -/
  | text
  /-- Behind the `<` of a tag. -/
  | opened
  /-- Behind the `</` of a tag. -/
  | ending
  /-- In the name of a closing tag. -/
  | endName
  /-- In the name of an opening tag. -/
  | name
  /-- Behind a blank in a tag. -/
  | gap
  /-- In the name of an attribute, of which this much has been read. -/
  | key (read : Text)
  /-- Behind the `=` of an attribute. -/
  | equals
  /-- In the value of an attribute. -/
  | value
  /-- Behind the value of an attribute. -/
  | closed
  /-- Behind the `/` at the end of a tag. -/
  | slash
  /-- Something has been read that is no tag. -/
  | broken
  deriving DecidableEq, Repr

namespace Reader

/-- Reads one character. -/
def step : Reader → Char → Reader
  | text, c => if c = '<' then opened else text
  | opened, c => if c = '/' then ending else if isTagChar c then name else broken
  | ending, c => if isTagChar c then endName else broken
  | endName, c => if c = '>' then text else if isTagChar c then endName else broken
  | name, c =>
    if c = '>' then text else if c = ' ' then gap else if c = '/' then slash
    else if isTagChar c then name else broken
  | gap, c => if c = '/' then slash else if isTagChar c then key [c] else broken
  | key n, c =>
    if c = '=' then if n ∈ attributeNames then equals else broken
    else if isTagChar c then key (n ++ [c]) else broken
  | equals, c => if c = '"' then value else broken
  | value, c => if c = '"' then closed else value
  | closed, c => if c = '>' then text else if c = ' ' then gap else if c = '/' then slash else broken
  | slash, c => if c = '>' then text else broken
  | broken, _ => broken

/-- Reads a text. -/
def read (q : Reader) (t : Text) : Reader :=
  t.foldl step q

@[simp] theorem read_nil (q : Reader) : q.read [] = q := rfl

@[simp] theorem read_cons (q : Reader) (c : Char) (t : Text) : q.read (c :: t) = (q.step c).read t :=
  rfl

@[simp] theorem read_append (q : Reader) (s t : Text) : q.read (s ++ t) = (q.read s).read t :=
  List.foldl_append

@[simp] theorem step_broken (c : Char) : broken.step c = broken := rfl

@[simp] theorem read_broken (t : Text) : broken.read t = broken := by
  induction t with
  | nil => rfl
  | cons c t ih => simpa using ih

/-- What has been read up to any place is not broken if the whole is not. -/
theorem ne_broken_of_append {q : Reader} {s t : Text} (h : q.read (s ++ t) ≠ broken) :
    q.read s ≠ broken := by
  intro hs
  apply h
  rw [read_append, hs, read_broken]

/-! ### Texts without tags -/

/-- Outside of tags, characters other than `<` are skipped. -/
theorem read_text {t : Text} (h : '<' ∉ t) : text.read t = text := by
  induction t with
  | nil => rfl
  | cons c t ih =>
    obtain ⟨hc, ht⟩ := not_or.mp (mt List.mem_cons.mpr h)
    rw [read_cons, step, if_neg (Ne.symm hc)]
    exact ih ht

/-- A value goes on as long as there is no double quote. -/
theorem read_value {t : Text} (h : '"' ∉ t) : value.read t = value := by
  induction t with
  | nil => rfl
  | cons c t ih =>
    obtain ⟨hc, ht⟩ := not_or.mp (mt List.mem_cons.mpr h)
    rw [read_cons, step, if_neg (Ne.symm hc)]
    exact ih ht

/-- Without double quotes no value is entered. -/
theorem read_ne_value {q : Reader} {t : Text} (hq : q ≠ value) (h : '"' ∉ t) : q.read t ≠ value := by
  induction t generalizing q with
  | nil => exact hq
  | cons c t ih =>
    obtain ⟨hc, ht⟩ := not_or.mp (mt List.mem_cons.mpr h)
    rw [read_cons]
    refine ih (fun hstep => ?_) ht
    cases q <;> simp only [step] at hstep <;> repeat' split at hstep
    all_goals first | contradiction | exact hq rfl | exact hc (Eq.symm ‹_›)

/-- Only `>` leads out of a tag. -/
theorem read_ne_text {q : Reader} {t : Text} (hq : q ≠ text) (h : '>' ∉ t) : q.read t ≠ text := by
  induction t generalizing q with
  | nil => exact hq
  | cons c t ih =>
    obtain ⟨hc, ht⟩ := not_or.mp (mt List.mem_cons.mpr h)
    rw [read_cons]
    refine ih (fun hstep => ?_) ht
    cases q <;> simp only [step] at hstep <;> repeat' split at hstep
    all_goals first | contradiction | exact hq rfl | exact hc (Eq.symm ‹_›)

/-! ### Tags without attributes -/

theorem ne_of_isTagChar {c d : Char} (hc : isTagChar c = true) (hd : isTagChar d = false) : c ≠ d := by
  rintro rfl
  simp [hc] at hd

theorem read_name {t : Text} (h : ∀ c ∈ t, isTagChar c = true) : name.read t = name := by
  induction t with
  | nil => rfl
  | cons c t ih =>
    have hc := h c (by simp)
    have hstep : name.step c = name := by
      simp [step, hc, ne_of_isTagChar hc (d := '>') (by decide),
        ne_of_isTagChar hc (d := ' ') (by decide), ne_of_isTagChar hc (d := '/') (by decide)]
    rw [read_cons, hstep]
    exact ih fun d hd => h d (by simp [hd])

theorem read_endName {t : Text} (h : ∀ c ∈ t, isTagChar c = true) : endName.read t = endName := by
  induction t with
  | nil => rfl
  | cons c t ih =>
    have hc := h c (by simp)
    have hstep : endName.step c = endName := by
      simp [step, hc, ne_of_isTagChar hc (d := '>') (by decide)]
    rw [read_cons, hstep]
    exact ih fun d hd => h d (by simp [hd])

/-- An opening tag without attributes is read. -/
theorem read_opening {t : Text} (hne : t ≠ []) (h : ∀ c ∈ t, isTagChar c = true) :
    text.read ('<' :: (t ++ ['>'])) = text := by
  obtain ⟨c, t, rfl⟩ := List.exists_cons_of_ne_nil hne
  have hc := h c (by simp)
  have hstep : opened.step c = name := by
    simp [step, hc, ne_of_isTagChar hc (d := '/') (by decide)]
  show (opened.step c).read (t ++ ['>']) = text
  rw [hstep, read_append, read_name fun d hd => h d (by simp [hd])]
  rfl

/-- A closing tag is read. -/
theorem read_ending {t : Text} (hne : t ≠ []) (h : ∀ c ∈ t, isTagChar c = true) :
    text.read ('<' :: '/' :: (t ++ ['>'])) = text := by
  obtain ⟨c, t, rfl⟩ := List.exists_cons_of_ne_nil hne
  have hstep : ending.step c = endName := by
    simp [step, h c (by simp)]
  show (ending.step c).read (t ++ ['>']) = text
  rw [hstep, read_append, read_endName fun d hd => h d (by simp [hd])]
  rfl

/-! ### Characters that no tag has outside its values -/

/-- A character that stands in no tag, unless in the value of an attribute. -/
def isForeign (c : Char) : Bool :=
  !(isTagChar c || ['<', '>', '/', ' ', '=', '"'].contains c)

/-- Such a character stands outside of tags or in a value. -/
theorem eq_of_foreign {q : Reader} {c : Char} (hc : isForeign c = true) (h : q.step c ≠ broken) :
    (q = text ∧ q.step c = text) ∨ (q = value ∧ q.step c = value) := by
  simp only [isForeign, Bool.not_eq_true', Bool.or_eq_false_iff, List.contains_eq_mem,
    decide_eq_false_iff_not, List.mem_cons, List.not_mem_nil, or_false, not_or] at hc
  obtain ⟨hname, hlt, hgt, hslash, hblank, hequals, hquote⟩ := hc
  cases q <;> simp_all [step]

/-- Behind such a character, the reader of a text without double quotes is outside of tags. -/
theorem read_text_of_foreign {t : Text} {c : Char} (hc : isForeign c = true) (ht : '"' ∉ t)
    (h : text.read (t ++ [c]) ≠ broken) : text.read (t ++ [c]) = text := by
  rw [read_append] at h ⊢
  rcases eq_of_foreign hc h with ⟨-, hend⟩ | ⟨hvalue, -⟩
  · exact hend
  · exact absurd hvalue (read_ne_value (by simp) ht)

/-- In front of such a character, the reader of a text without double quotes is outside of tags. -/
theorem eq_text_of_foreign {s t : Text} {c : Char} (hc : isForeign c = true)
    (h : text.read (s ++ c :: t) = text) (hquote : '"' ∉ s) : text.read s = text := by
  have hstep : (text.read s).step c ≠ broken := by
    intro hbroken
    rw [read_append, read_cons, hbroken, read_broken] at h
    cases h
  rcases eq_of_foreign hc hstep with ⟨hs, -⟩ | ⟨hs, -⟩
  · exact hs
  · exact absurd hs (read_ne_value (by simp) hquote)

theorem step_equals {q : Reader} (h : q.step '=' ≠ broken) :
    q = text ∨ q = value ∨ q.step '=' = equals := by
  cases q <;> simp_all [step, isTagChar, isAsciiLetter, isAsciiDigit]

/-- Behind the `=` of an attribute a double quote must follow. -/
theorem read_equals {t : Text} (h : '"' ∉ t) : equals.read t ≠ text := by
  cases t with
  | nil => exact fun h => by cases h
  | cons c t =>
    have hc : c ≠ '"' := fun hc => h (by simp [hc])
    rw [read_cons, step, if_neg hc, read_broken]
    exact fun h => by cases h

/-- In front of `=`, the reader of a text without double quotes is outside of tags. -/
theorem eq_text_of_equals {s t : Text} (h : text.read (s ++ '=' :: t) = text) (hs : '"' ∉ s)
    (ht : '"' ∉ t) : text.read s = text := by
  rw [read_append, read_cons] at h
  have hstep : (text.read s).step '=' ≠ broken := by
    intro hbroken
    rw [hbroken, read_broken] at h
    cases h
  rcases step_equals hstep with hq | hq | hq
  · exact hq
  · exact absurd hq (read_ne_value (by simp) hs)
  · rw [hq] at h
    exact absurd h (read_equals ht)

end Reader

/-- The text can be read to its end by the rule for tags: every tag has a name, known attributes with
values in double quotes, and an end. -/
def Contained (t : Text) : Prop :=
  Reader.text.read t = .text

instance (t : Text) : Decidable (Contained t) :=
  inferInstanceAs (Decidable (Reader.text.read t = .text))

theorem Contained.append {s t : Text} (hs : Contained s) (ht : Contained t) : Contained (s ++ t) := by
  unfold Contained at *
  rw [Reader.read_append, hs, ht]

/-- A text that is read up to a place can be read behind it. -/
theorem Contained.behind {s t : Text} (h : Contained (s ++ t)) (hs : Contained s) : Contained t := by
  unfold Contained at *
  rwa [Reader.read_append, hs] at h

theorem contained_of_not_mem {t : Text} (h : '<' ∉ t) : Contained t :=
  Reader.read_text h

end Markdown.Html
