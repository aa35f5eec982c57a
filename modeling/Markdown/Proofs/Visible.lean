import Markdown.Highlight.Span
import Markdown.Html.Reference
import Markdown.Proofs.Search

/-!
# What is visible of HTML

Escaping writes the five reserved characters as references and keeps all others, so it changes exactly
the texts with a reserved character (`Html.escape_eq_self_iff`). HTML that has been put together from
escaped texts and from tags comes apart into these again (`Html.parts_tag`, `Html.parts_text`). Reading
it without its tags and with its references replaced gives the texts back: `Html.visibleText` undoes
`Html.escape`.
-/

namespace Markdown.Html

/-- A tag: from `<` to the only `>` in it. -/
def IsTag (t : Text) : Prop :=
  ∃ inner, t = '<' :: (inner ++ ['>']) ∧ '>' ∉ inner

variable {t tag : Text} {c d : Char}

/-! ### Escaping -/

/-- The written form of a character is the character or a reference. -/
theorem escapeChar_eq_or (c : Char) : escapeChar c = [c] ∨ ∃ r, escapeChar c = '&' :: r := by
  unfold escapeChar
  split <;> first | exact .inl rfl | (rw [String.toList_ofList]; exact .inr ⟨_, rfl⟩)

theorem not_mem_escape (t : Text) : '<' ∉ escape t := by
  have hchar : ∀ c, '<' ∉ escapeChar c := by
    intro c
    unfold escapeChar
    split <;> first | (rw [String.toList_ofList]; decide) | skip
    next h _ _ _ => simpa using Ne.symm h
  simp [escape, hchar]

/-- The characters of the references that `escape` writes. -/
def referenceChars : Text :=
  "&;#039ampltgquo".toList

theorem eq_or_mem_of_mem_escapeChar (h : d ∈ escapeChar c) : d = c ∨ d ∈ referenceChars := by
  have hreference : ∀ s : Text, s.all (· ∈ referenceChars) = true → d ∈ s → d ∈ referenceChars :=
    fun s hs hd => of_decide_eq_true (List.all_eq_true.mp hs d hd)
  unfold escapeChar at h
  split at h
  all_goals first
    | exact .inl (List.mem_singleton.mp h)
    | exact .inr (hreference _ (by decide) h)

/-- What holds of each character of a text, and of those of references, holds of the written form. -/
theorem forall_mem_escape {p : Char → Prop} (hreference : ∀ d ∈ referenceChars, p d)
    (h : ∀ c ∈ t, p c) : ∀ d ∈ escape t, p d := by
  intro d hd
  obtain ⟨c, hc, hd⟩ := List.mem_flatMap.mp hd
  rcases eq_or_mem_of_mem_escapeChar hd with rfl | hd
  · exact h d hc
  · exact hreference d hd

theorem escape_ne_nil (h : t ≠ []) : escape t ≠ [] := by
  obtain ⟨c, r, rfl⟩ := List.exists_cons_of_ne_nil h
  rcases escapeChar_eq_or c with hc | ⟨s, hc⟩ <;> simp [hc]

/-- A character that no reference is written with. -/
theorem not_mem_escape_of_not_mem (hd : d ∉ referenceChars) (h : d ∉ t) : d ∉ escape t := by
  intro hmem
  refine forall_mem_escape (p := (· ≠ d)) (fun e he => ?_) (fun c hc => ?_) d hmem rfl
  · exact ne_of_mem_of_not_mem he hd
  · exact ne_of_mem_of_not_mem hc h

/-- The last character of a reference is a semicolon. -/
theorem getLast?_escape (hd : d ≠ ';') (h : t.getLast? ≠ some d) : (escape t).getLast? ≠ some d := by
  rcases List.eq_nil_or_concat t with rfl | ⟨s, z, rfl⟩
  · simp
  · have hz : (escapeChar z).getLast? = some z ∨ (escapeChar z).getLast? = some ';' := by
      unfold escapeChar
      split
      all_goals first
        | exact .inl rfl
        | exact .inr (by decide)
    rw [List.concat_eq_append] at h ⊢
    rcases hz with hz | hz
    · simpa [hz] using h
    · simpa [hz] using Ne.symm hd

/-- A character with a meaning in HTML. -/
def isReserved (c : Char) : Bool :=
  c = '&' || c = '<' || c = '>' || c = '"' || c = '\''

theorem eq_or_of_isReserved (h : isReserved c = true) :
    c = '&' ∨ c = '<' ∨ c = '>' ∨ c = '"' ∨ c = '\'' := by
  simpa [isReserved, or_assoc] using h

theorem escapeChar_of_not_reserved (h : isReserved c = false) : escapeChar c = [c] := by
  unfold escapeChar
  split <;> first | rfl | cases h

theorem length_escapeChar_of_reserved (h : isReserved c = true) : 1 < (escapeChar c).length := by
  rcases eq_or_of_isReserved h with rfl | rfl | rfl | rfl | rfl <;> decide

/-- Escaping makes exactly the texts with a reserved character longer. -/
theorem length_escape_eq_iff : (escape t).length = t.length ↔ ∀ c ∈ t, isReserved c = false := by
  have hlonger : ∀ c, escapeChar c = [c] ∨ 1 < (escapeChar c).length := by
    intro c
    cases hc : isReserved c with
    | false => exact .inl (escapeChar_of_not_reserved hc)
    | true => exact .inr (length_escapeChar_of_reserved hc)
  have hself : ∀ c, escapeChar c = [c] ↔ isReserved c = false := by
    refine fun c => ⟨fun h => ?_, escapeChar_of_not_reserved⟩
    rw [← Bool.not_eq_true]
    exact fun hc => absurd (length_escapeChar_of_reserved hc) (by simp [h])
  rw [escape, Text.length_flatMap_eq_iff hlonger]
  simp only [hself]

/-- Escaping leaves exactly the texts without reserved characters as they are. -/
theorem escape_eq_self_iff : escape t = t ↔ ∀ c ∈ t, isReserved c = false :=
  ⟨fun h => length_escape_eq_iff.mp (congrArg List.length h),
    fun h => Text.flatMap_eq_self fun c hc => escapeChar_of_not_reserved (h c hc)⟩

/-! ### Parts -/

@[simp] theorem parts_nil : parts [] = [] := by
  simp [parts]

/-- A part that starts at a character other than `<` is text. It goes up to the next tag or to the
end. -/
theorem partStep_of_ne {c : Char} (hc : c ≠ '<') (r : Text) :
    partStep () c r = ⟨if '>' ∈ r.dropWhile (· ≠ '<') then (r.takeWhile (· ≠ '<')).length
      else r.length, .text, ()⟩ := by
  rw [partStep, if_neg (by simp [hc])]
  dsimp only
  rw [Text.drop_length_takeWhile]
  split <;> rfl

theorem parts_tag (h : IsTag tag) (r : Text) : parts (tag ++ r) = ⟨.tag, tag⟩ :: parts r := by
  obtain ⟨inner, rfl, hinner⟩ := h
  have hrun : (inner ++ '>' :: r).takeWhile (· ≠ '>') = inner := by
    rw [List.takeWhile_append_of_pos fun c hc => by simpa using ne_of_mem_of_not_mem hc hinner]
    simp
  have hstep : partStep () '<' (inner ++ '>' :: r) = ⟨inner.length + 1, .tag, ()⟩ := by
    rw [partStep, if_pos (by simp), hrun]
  have hsplit : inner ++ '>' :: r = inner ++ ['>'] ++ r := by simp
  rw [List.cons_append, List.append_assoc, List.singleton_append, parts, Text.segment_cons, hstep]
  dsimp only
  rw [hsplit, List.take_left' (by simp), List.drop_left' (by simp)]
  rfl

theorem parts_of_not_mem (hne : t ≠ []) (h : '<' ∉ t) : parts t = [⟨.text, t⟩] := by
  obtain ⟨c, r, rfl⟩ := List.exists_cons_of_ne_nil hne
  obtain ⟨hc, hr⟩ := List.ne_and_not_mem_of_not_mem_cons h
  have hrun : r.takeWhile (· ≠ '<') = r :=
    List.takeWhile_eq_self_iff.mpr fun d hd => by simpa using ne_of_mem_of_not_mem hd hr
  have hstep : partStep () c r = ⟨r.length, .text, ()⟩ := by
    rw [partStep_of_ne hc.symm, hrun, ite_self]
  rw [parts, Text.segment_cons, hstep]
  simp

theorem parts_text (hne : t ≠ []) (h : '<' ∉ t) (htag : IsTag tag) (r : Text) :
    parts (t ++ (tag ++ r)) = ⟨.text, t⟩ :: parts (tag ++ r) := by
  obtain ⟨c, u, rfl⟩ := List.exists_cons_of_ne_nil hne
  obtain ⟨hc, hu⟩ := List.ne_and_not_mem_of_not_mem_cons h
  obtain ⟨inner, rfl, -⟩ := htag
  have hrun : (u ++ '<' :: (inner ++ '>' :: r)).takeWhile (· ≠ '<') = u := by
    rw [List.takeWhile_append_of_pos fun d hd => by simpa using ne_of_mem_of_not_mem hd hu]
    simp
  have hstep : partStep () c (u ++ '<' :: (inner ++ '>' :: r)) = ⟨u.length, .text, ()⟩ := by
    rw [partStep_of_ne hc.symm, hrun, ← Text.drop_length_takeWhile, hrun, if_pos (by simp)]
  rw [show '<' :: (inner ++ ['>']) ++ r = '<' :: (inner ++ '>' :: r) by simp, List.cons_append,
    parts, Text.segment_cons, hstep]
  simp [parts]

/-- A character other than `<` is text. Its part takes what the next part would take, if that is text
too. -/
theorem exists_parts_cons {c : Char} (hc : c ≠ '<') (r : Text) :
    ∃ u ps, parts (c :: r) = ⟨.text, c :: u⟩ :: ps ∧
      (parts r = ⟨.text, u⟩ :: ps ∨ u = [] ∧ parts r = ps) := by
  unfold parts
  rw [Text.segment_cons, partStep_of_ne hc]
  refine ⟨_, _, rfl, ?_⟩
  cases r with
  | nil => exact .inr (by simp)
  | cons d r =>
    by_cases hd : d = '<'
    · subst hd
      by_cases hclosed : '>' ∈ r
      · exact .inr (by simp [hclosed])
      · have hstep : partStep () '<' r = ⟨r.length, .text, ()⟩ := by
          rw [partStep, if_neg (by simp [hclosed])]
          exact if_neg fun hmem => hclosed (List.mem_of_mem_drop hmem)
        refine .inl ?_
        rw [Text.segment_cons, hstep]
        simp [hclosed]
    · refine .inl ?_
      rw [Text.segment_cons, partStep_of_ne hd]
      simp only [List.dropWhile_cons, List.takeWhile_cons, ne_eq, hd, not_false_eq_true,
        decide_true, if_true, List.length_cons]
      split <;> simp

/-- Changing the texts changes a text in front of a tag on its own. -/
theorem mapTexts_text {f : Text → Text} (hf : f [] = []) (h : '<' ∉ t) (htag : IsTag tag) (r : Text) :
    mapTexts f (t ++ (tag ++ r)) = f t ++ (tag ++ mapTexts f r) := by
  unfold mapTexts
  by_cases hne : t = []
  · rw [hne, hf, List.nil_append, parts_tag htag]
    rfl
  · rw [parts_text hne h htag, parts_tag htag]
    rfl

theorem mapTexts_of_not_mem {f : Text → Text} (hf : f [] = []) (h : '<' ∉ t) :
    mapTexts f t = f t := by
  unfold mapTexts
  by_cases hne : t = []
  · rw [hne, hf]
    simp
  · rw [parts_of_not_mem hne h]
    simp

/-! ### Without tags -/

/-- HTML without its tags. -/
def withoutTags (t : Text) : Text :=
  (parts t).flatMap fun p => if p.label = .text then p.text else []

theorem visibleText_eq (t : Text) : visibleText t = unescape (withoutTags t) := rfl

@[simp] theorem withoutTags_nil : withoutTags [] = [] := by
  simp [withoutTags]

theorem withoutTags_tag (h : IsTag tag) (r : Text) : withoutTags (tag ++ r) = withoutTags r := by
  rw [withoutTags, parts_tag h]
  rfl

theorem withoutTags_cons {c : Char} (hc : c ≠ '<') (r : Text) :
    withoutTags (c :: r) = c :: withoutTags r := by
  obtain ⟨u, ps, hparts, hrest | ⟨rfl, hrest⟩⟩ := exists_parts_cons hc r
  all_goals
    rw [withoutTags, withoutTags, hparts, hrest]
    rfl

theorem withoutTags_append (h : '<' ∉ t) (r : Text) : withoutTags (t ++ r) = t ++ withoutTags r := by
  induction t with
  | nil => rfl
  | cons c t ih =>
    obtain ⟨hc, ht⟩ := List.ne_and_not_mem_of_not_mem_cons h
    rw [List.cons_append, withoutTags_cons hc.symm, ih ht]
    rfl

/-! ### Only tags -/

/-- The tags of HTML, in order. -/
def tags (t : Text) : List Text :=
  (parts t).filterMap fun p => if p.label = .tag then some p.text else none

@[simp] theorem tags_nil : tags [] = [] := by
  simp [tags]

theorem tags_tag (h : IsTag tag) (r : Text) : tags (tag ++ r) = tag :: tags r := by
  rw [tags, parts_tag h]
  rfl

theorem tags_cons {c : Char} (hc : c ≠ '<') (r : Text) : tags (c :: r) = tags r := by
  obtain ⟨u, ps, hparts, hrest | ⟨rfl, hrest⟩⟩ := exists_parts_cons hc r
  all_goals
    rw [tags, tags, hparts, hrest]
    rfl

theorem tags_append (h : '<' ∉ t) (r : Text) : tags (t ++ r) = tags r := by
  induction t with
  | nil => rfl
  | cons c t ih =>
    obtain ⟨hc, ht⟩ := List.ne_and_not_mem_of_not_mem_cons h
    rw [List.cons_append, tags_cons hc.symm, ih ht]

/-! ### References -/

theorem unescape_cons {c : Char} (hc : c ≠ '&') (r : Text) :
    unescape (c :: r) = (do
      let more ← unescape r
      pure (c :: more)) := by
  have hstep : referenceStep () c r = ⟨0, none, ()⟩ := if_neg hc
  unfold unescape
  rw [Text.segment_cons, hstep]
  simp [referenceValue]

/-- A name with a semicolon behind it. -/
theorem unescape_name (name v : Text) (h : name.all isNameChar = true) (hlen : name.length < 32)
    (hvalue : namedValue name true = v) (hne : name ≠ []) (r : Text) :
    unescape ('&' :: (name ++ ';' :: r)) = (do
      let more ← unescape r
      pure (v ++ more)) := by
  have hrun : ((name ++ ';' :: r).take 32).takeWhile isNameChar = name := by
    obtain ⟨k, hk⟩ : ∃ k, 32 - name.length = k + 1 := Nat.exists_eq_add_one.mpr (by omega)
    rw [List.take_append, List.take_of_length_le (by omega), hk, List.take_succ_cons,
      List.takeWhile_append_of_pos (List.all_eq_true.mp h), List.takeWhile_cons_of_neg (by decide),
      List.append_nil]
  have href : reference? (name ++ ';' :: r) = some (.name (name.length + 1) name true) := by
    obtain ⟨c, n, rfl⟩ := List.exists_cons_of_ne_nil hne
    have hc : c ≠ '#' := by
      rintro rfl
      simp [isNameChar] at h
    unfold reference?
    split
    · next heq => exact absurd (List.cons.inj heq).1 hc
    · rw [hrun]
      simp [semicolon]
  have hstep : referenceStep () '&' (name ++ ';' :: r) =
      ⟨name.length + 1, some (.name (name.length + 1) name true), ()⟩ := by
    rw [referenceStep, if_pos rfl, href]
  have hdrop : (name ++ ';' :: r).drop (name.length + 1) = r := by
    rw [← List.drop_drop, List.drop_left]
    rfl
  unfold unescape
  rw [Text.segment_cons, hstep]
  simp [referenceValue, hvalue, hdrop]

theorem find?_replacedNumbers : (replacedNumbers.find? fun r => r.1 == 39) = none := by
  unfold replacedNumbers Text.readRanges Text.readNumbers
  rw [String.toList_ofList]
  decide +kernel

theorem any_droppedNumbers : (droppedNumbers.any fun r => r.1 ≤ 39 && 39 ≤ r.2) = false := by
  unfold droppedNumbers Text.readRanges Text.readNumbers
  rw [String.toList_ofList]
  decide +kernel

theorem numberValue_apostrophe : numberValue 39 = ['\''] := by
  rw [numberValue, find?_replacedNumbers, any_droppedNumbers]
  rfl

theorem unescape_apostrophe (r : Text) :
    unescape ("&#039;".toList ++ r) = (do
      let more ← unescape r
      pure ('\'' :: more)) := by
  rw [String.toList_ofList]
  have hstep : referenceStep () '&' ('#' :: '0' :: '3' :: '9' :: ';' :: r) =
      ⟨5, some (.number 5 ['0', '3', '9'] false), ()⟩ := rfl
  have hdigits : Text.digitsValue ['0', '3', '9'] = 39 := by decide +kernel
  show unescape ('&' :: '#' :: '0' :: '3' :: '9' :: ';' :: r) = _
  unfold unescape
  rw [Text.segment_cons, hstep]
  simp [referenceValue, maxReferenceDigits, hdigits, numberValue_apostrophe]

/-- A character comes back from its written form. -/
theorem unescape_escapeChar (c : Char) (r : Text) :
    unescape (escapeChar c ++ r) = (do
      let more ← unescape r
      pure (c :: more)) := by
  unfold escapeChar
  split
  · rw [String.toList_ofList]
    exact unescape_name ['a', 'm', 'p'] ['&'] (by decide) (by decide) (by decide +kernel) (by decide) r
  · rw [String.toList_ofList]
    exact unescape_name ['l', 't'] ['<'] (by decide) (by decide) (by decide +kernel) (by decide) r
  · rw [String.toList_ofList]
    exact unescape_name ['g', 't'] ['>'] (by decide) (by decide) (by decide +kernel) (by decide) r
  · rw [String.toList_ofList]
    exact unescape_name ['q', 'u', 'o', 't'] ['"'] (by decide) (by decide) (by decide +kernel)
      (by decide) r
  · exact unescape_apostrophe r
  · next hamp _ _ _ _ => exact unescape_cons hamp r

/-- No written form begins another one: what was written can be told from its beginning. -/
theorem isPrefixOf_escapeChar (c d : Char) (r : Text) :
    (escapeChar c).isPrefixOf (escapeChar d ++ r) = (c == d) := by
  rw [Bool.eq_iff_iff, List.isPrefixOf_iff_prefix, beq_iff_eq]
  constructor
  · rintro ⟨s, hs⟩
    have hread := congrArg (Report.value ∘ unescape) hs
    simp only [Function.comp_apply, unescape_escapeChar, Report.value_bind, Report.value_pure] at hread
    exact (List.cons.inj hread).1
  · rintro rfl
    exact List.prefix_append _ r

theorem unescape_escape (t : Text) : unescape (escape t) = pure t := by
  induction t with
  | nil => simp [unescape]
  | cons c t ih => rw [escape_cons, unescape_escapeChar, ih, pure_bind]

theorem escape_inj {s t : Text} : escape s = escape t ↔ s = t := by
  refine ⟨fun h => ?_, fun h => h ▸ rfl⟩
  have hread := congrArg (Report.value ∘ unescape) h
  simpa only [Function.comp_apply, unescape_escape, Report.value_pure] using hread

/-! ### Texts and tags together -/

/-- HTML that shows a text and holds some tags, wherever it stands. -/
structure Reads (html visible : Text) (ts : List Text) : Prop where
  /-- Without tags it is the text, written for HTML. -/
  withoutTags_append : ∀ r, withoutTags (html ++ r) = escape visible ++ withoutTags r
  /-- It holds the tags. -/
  tags_append : ∀ r, tags (html ++ r) = ts ++ tags r

variable {html html' visible visible' : Text} {ts ts' : List Text}

theorem reads_nil : Reads [] [] [] :=
  ⟨fun _ => rfl, fun _ => rfl⟩

theorem reads_escape (t : Text) : Reads (escape t) t [] :=
  ⟨withoutTags_append (not_mem_escape t), tags_append (not_mem_escape t)⟩

theorem reads_tag (h : IsTag tag) : Reads tag [] [tag] :=
  ⟨withoutTags_tag h, tags_tag h⟩

theorem Reads.append (h : Reads html visible ts) (h' : Reads html' visible' ts') :
    Reads (html ++ html') (visible ++ visible') (ts ++ ts') := by
  refine ⟨fun r => ?_, fun r => ?_⟩
  · rw [List.append_assoc, h.withoutTags_append, h'.withoutTags_append, escape_append, List.append_assoc]
  · rw [List.append_assoc, h.tags_append, h'.tags_append, List.append_assoc]

theorem reads_flatMap {α : Type} {html visible : α → Text} {l : List α}
    (h : ∀ a ∈ l, ∃ ts, Reads (html a) (visible a) ts) :
    ∃ ts, Reads (l.flatMap html) (l.flatMap visible) ts := by
  induction l with
  | nil => exact ⟨_, reads_nil⟩
  | cons a l ih =>
    obtain ⟨ha, hl⟩ := List.forall_mem_cons.mp h
    obtain ⟨ts, hts⟩ := ha
    obtain ⟨ts', hts'⟩ := ih hl
    exact ⟨_, hts.append hts'⟩

theorem Reads.tags_eq (h : Reads html visible ts) : tags html = ts := by
  simpa using h.tags_append []

/-- The text is what is visible. -/
theorem Reads.visibleText_eq (h : Reads html visible ts) : visibleText html = pure visible := by
  have hwithout : withoutTags html = escape visible := by simpa using h.withoutTags_append []
  rw [Html.visibleText_eq, hwithout, unescape_escape]

end Markdown.Html
