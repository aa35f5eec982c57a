import Markdown.Html.Tree
import Markdown.Proofs.LowerCase
import Markdown.Proofs.Visible

/-!
# Markup as it is written

The tags that a writer of HTML makes: names in lower case, attributes in double quotes with escaped
values, and a slash at the end of an element without content. The readers of tags and of references
get back what was written.
-/

namespace Markdown.Html

open Text

variable {name t : Text} {c : Char}

/-! ### Names -/

/-- A character of a name in lower case. -/
def isNameLetter (c : Char) : Bool :=
  ('a' ≤ c && c ≤ 'z') || isAsciiDigit c || c = '-'

/-- A name in lower case: it starts with a letter. -/
def isName (t : Text) : Bool :=
  t.head?.any isAsciiLetter && t.all isNameLetter

theorem isNameLetter_of_isName (h : isName t = true) (hc : c ∈ t) : isNameLetter c = true := by
  simp only [isName, Bool.and_eq_true, List.all_eq_true] at h
  exact h.2 c hc

theorem exists_cons_of_isName (h : isName name = true) :
    ∃ c r, name = c :: r ∧ isAsciiLetter c = true := by
  simp only [isName, Bool.and_eq_true] at h
  cases name with
  | nil => cases h.1
  | cons c r => exact ⟨c, r, rfl, h.1⟩

theorem isBlank_of_isNameLetter (h : isNameLetter c = true) : isBlank c = false := by
  simp [isNameLetter, isAsciiDigit, isBlank, Char.le_def, UInt32.le_iff_toNat_le,
    ← Char.toNat_inj] at h ⊢
  omega

theorem lowerAscii_of_isNameLetter (h : isNameLetter c = true) : lowerAscii c = c := by
  have hupper : ('A' ≤ c && c ≤ 'Z') = false := by
    simp [isNameLetter, isAsciiDigit, Char.le_def, UInt32.le_iff_toNat_le, ← Char.toNat_inj] at h ⊢
    omega
  simp [lowerAscii, hupper]

theorem lower_of_isName (h : isName t = true) : lower t = t := by
  have hletters : ∀ c ∈ t, isNameLetter c = true := fun c hc => isNameLetter_of_isName h hc
  have hascii : ∀ c ∈ t, c.toNat < 0x80 := by
    intro c hc
    have hletter := hletters c hc
    simp [isNameLetter, isAsciiDigit, Char.le_def, UInt32.le_iff_toNat_le, ← Char.toNat_inj] at hletter
    omega
  rw [lower_of_isAscii hascii]
  exact (List.map_congr_left fun c hc => lowerAscii_of_isNameLetter (hletters c hc)).trans (List.map_id t)

/-! ### Start tags -/

/-- The value of an attribute with its equals sign. An empty value is left out. -/
def valueText (v : Text) : Text :=
  if v.isEmpty then [] else '=' :: '"' :: (escape v ++ ['"'])

/-- What follows the name in a start tag: the attributes and the end of the tag. -/
def attributesText (closed : Bool) : List (Text × Text) → Text
  | [] => if closed then [' ', '/', '>'] else ['>']
  | a :: r => ' ' :: (a.1 ++ (valueText a.2 ++ attributesText closed r))

/-- What is left of the end of a start tag behind a space. -/
def tagEnd (closed : Bool) : Text :=
  if closed then ['/', '>'] else ['>']

/-- A tag with names in lower case, each attribute once. Its text is ordinary text. -/
def Tag.isWritten (tag : Tag) : Bool :=
  isName tag.name && tag.textKind?.isNone && tag.attributes.all (fun a => isName a.1) &&
    (tag.attributes.map (·.1)).Nodup

/-- What follows a name or a value in a start tag is the end of the tag, or a space in front of a
name or of the end. -/
theorem attributesText_cases (closed : Bool) {attributes : List (Text × Text)}
    (h : ∀ a ∈ attributes, isName a.1 = true) :
    (attributes = [] ∧ closed = false) ∨
      ((attributes.isEmpty && !closed) = false ∧
        ∃ d s, attributesText closed attributes = ' ' :: d :: s ∧ isBlank d = false ∧ d ≠ '=' ∧
          (d = '/' → s.head? = some '>')) := by
  cases attributes with
  | nil =>
    cases closed with
    | false => exact .inl ⟨rfl, rfl⟩
    | true => exact .inr ⟨rfl, '/', ['>'], rfl, by decide, by decide, fun _ => rfl⟩
  | cons a r =>
    have hname := h a List.mem_cons_self
    obtain ⟨c, n, hcons, -⟩ := exists_cons_of_isName hname
    have hletter : isNameLetter c = true := isNameLetter_of_isName hname (by simp [hcons])
    refine .inr ⟨rfl, c, n ++ (valueText a.2 ++ attributesText closed r), ?_,
      isBlank_of_isNameLetter hletter, ne_of_class hletter (by decide),
      fun heq => absurd heq (ne_of_class hletter (by decide))⟩
    rw [attributesText, hcons]
    rfl

theorem not_mem_escape_quote (t : Text) : '"' ∉ escape t := by
  have hchar : ∀ c, '"' ∉ escapeChar c := by
    intro c
    unfold escapeChar
    split <;> first | (rw [String.toList_ofList]; decide) | skip
    next h _ => simpa using Ne.symm h
  simp [escape, hchar]

namespace StartTag

theorem gapLength_attributesText (closed : Bool) {attributes : List (Text × Text)}
    (h : ∀ a ∈ attributes, isName a.1 = true) (rest : Text) :
    gapLength (attributesText closed attributes ++ rest) =
      if attributes.isEmpty && !closed then 0 else 1 := by
  rcases attributesText_cases closed h with ⟨rfl, rfl⟩ | ⟨hempty, d, s, htext, hd, -, hslash⟩
  · rfl
  · have hinner : gapLength (d :: (s ++ rest)) = 0 := by
      rw [gapLength, hd]
      by_cases hd' : d = '/'
      · have hhead := hslash hd'
        cases s with
        | nil => cases hhead
        | cons e s => simp at hhead; simp [hhead]
      · simp [hd']
    have hspace : isBlank ' ' = true := by decide
    rw [htext, hempty, List.cons_append, List.cons_append, gapLength, hinner]
    simp [hspace]

theorem value?_attributesText (closed : Bool) {attributes : List (Text × Text)}
    (h : ∀ a ∈ attributes, isName a.1 = true) (rest : Text) :
    value? (attributesText closed attributes ++ rest) = none := by
  rcases attributesText_cases closed h with ⟨rfl, rfl⟩ | ⟨-, d, s, htext, hd, heq, -⟩
  · have hend : isBlank '>' = false := by decide
    simp [attributesText, value?, hend]
  · have hspace : isBlank ' ' = true := by decide
    simp [htext, value?, hspace, hd, heq]

theorem value?_valueText {v : Text} (hv : v.isEmpty = false) (rest : Text) :
    value? (valueText v ++ rest) = some ⟨escape v, (valueText v).length⟩ := by
  have hsign : isBlank '=' = false := by decide
  have hquote : isBlank '"' = false := by decide
  have hvalue : quotedValue? ('"' :: (escape v ++ '"' :: rest)) = some (escape v) := by
    rw [quotedValue?, if_pos (by decide), cutAt?_append rest (not_mem_escape_quote v)]
    rfl
  have htext : valueText v = '=' :: '"' :: (escape v ++ ['"']) := by simp [valueText, hv]
  have hsplit : valueText v ++ rest = '=' :: '"' :: (escape v ++ '"' :: rest) := by simp [htext]
  rw [hsplit, htext]
  simp [value?, hsign, hquote, hvalue]
  omega

theorem startsAttribute_of_isNameLetter (h : isNameLetter c = true) : startsAttribute c = true := by
  simp [startsAttribute, isBlank_of_isNameLetter h, ne_of_class h (d := '/') (by decide),
    ne_of_class h (d := '>') (by decide)]

theorem isAttributeChar_of_isNameLetter (h : isNameLetter c = true) : isAttributeChar c = true := by
  simp [isAttributeChar, startsAttribute_of_isNameLetter h, ne_of_class h (d := '=') (by decide)]

theorem endsName_of_isNameLetter (h : isNameLetter c = true) : endsName c = false := by
  simp [isNameLetter, isAsciiDigit, endsName, Char.le_def, UInt32.le_iff_toNat_le,
    ← Char.toNat_inj] at h ⊢
  omega

theorem attributesFrom_stop (before : Char) (r : Text) (hc : startsAttribute c = false) :
    attributesFrom before (c :: r) = ([], c :: r) := by
  rw [attributesFrom.eq_def]
  simp [hc]

/-- The character behind a name is no part of it. -/
theorem takeWhile_isAttributeChar (closed : Bool) (v : Text) {attributes : List (Text × Text)}
    (h : ∀ a ∈ attributes, isName a.1 = true) (rest : Text) :
    (valueText v ++ (attributesText closed attributes ++ rest)).takeWhile isAttributeChar = [] := by
  cases v with
  | cons d v => simp [valueText, isAttributeChar]
  | nil =>
    rcases attributesText_cases closed h with ⟨rfl, rfl⟩ | ⟨-, d, s, htext, -⟩
    · simp [valueText, attributesText, isAttributeChar, startsAttribute]
    · have hspace : isBlank ' ' = true := by decide
      simp [valueText, htext, isAttributeChar, startsAttribute, hspace]

variable {attributes : List (Text × Text)}

theorem attributeAt_text (closed : Bool) {a : Text × Text}
    (h : ∀ b ∈ a :: attributes, isName b.1 = true) (rest : Text) {n : Text} (hname : a.1 = c :: n) :
    attributeAt c (n ++ (valueText a.2 ++ (attributesText closed attributes ++ rest))) =
      ⟨a.1, escape a.2, n.length + (valueText a.2).length +
        if attributes.isEmpty && !closed then 0 else 1⟩ := by
  obtain ⟨ha, hrest⟩ := List.forall_mem_cons.mp h
  have hletters : ∀ d ∈ n, isAttributeChar d = true := fun d hd =>
    isAttributeChar_of_isNameLetter (isNameLetter_of_isName ha (by simp [hname, hd]))
  have htake : (n ++ (valueText a.2 ++ (attributesText closed attributes ++ rest))).takeWhile
      isAttributeChar = n := by
    rw [List.takeWhile_append_of_pos hletters, takeWhile_isAttributeChar closed a.2 hrest,
      List.append_nil]
  have hgap := gapLength_attributesText closed hrest rest
  rw [attributeAt]
  simp only [htake, List.drop_left]
  cases hvalue : a.2.isEmpty with
  | true =>
    have hnone := value?_attributesText closed hrest rest
    rw [List.isEmpty_iff.mp hvalue]
    simp [valueText, hnone, hgap, hname]
  | false =>
    rw [value?_valueText hvalue]
    simp [hgap, hname]

/-- Attributes behind a space are read back, with their values as written. -/
theorem attributesFrom_attributesText (closed : Bool) (h : ∀ a ∈ attributes, isName a.1 = true)
    (rest : Text) {body : Text} (hbody : attributesText closed attributes = ' ' :: body) :
    (attributesFrom ' ' (body ++ rest)).1.map (fun a => (a.name, a.value)) =
        attributes.map (fun a => (a.1, escape a.2)) ∧
      (attributesFrom ' ' (body ++ rest)).2 = tagEnd closed ++ rest := by
  induction attributes generalizing body with
  | nil =>
    cases closed with
    | false => cases hbody
    | true =>
      obtain rfl : ['/', '>'] = body := (List.cons.inj hbody).2
      rw [List.cons_append, attributesFrom_stop ' ' _ (by decide)]
      exact ⟨rfl, rfl⟩
  | cons a r ih =>
    obtain ⟨ha, hr⟩ := List.forall_mem_cons.mp h
    obtain ⟨c, n, hname, -⟩ := exists_cons_of_isName ha
    have hletter : isNameLetter c = true := isNameLetter_of_isName ha (by simp [hname])
    have hspace : opensAttribute ' ' = true := by decide
    have hstarts : (opensAttribute ' ' && startsAttribute c) = true := by
      rw [hspace, startsAttribute_of_isNameLetter hletter, Bool.and_true]
    have hattribute := attributeAt_text closed h rest hname
    have htext :
        body ++ rest = c :: (n ++ (valueText a.2 ++ (attributesText closed r ++ rest))) := by
      rw [← (List.cons.inj hbody).2, hname]
      simp
    rw [htext, attributesFrom.eq_def]
    simp only [hstarts, if_true, hattribute]
    rcases attributesText_cases closed hr with ⟨rfl, rfl⟩ | ⟨hempty, d, s, hend, -⟩
    · have hdrop : (n ++ (valueText a.2 ++ (attributesText false [] ++ rest))).drop
          (n.length + (valueText a.2).length + 0) = '>' :: rest := by
        rw [Nat.add_zero, ← List.drop_drop, List.drop_left, List.drop_left]
        rfl
      simp only [List.isEmpty_nil, Bool.not_false, Bool.and_self, if_true, hdrop]
      rw [attributesFrom_stop _ _ (by decide)]
      exact ⟨rfl, rfl⟩
    · have hsplit : n ++ (valueText a.2 ++ (attributesText closed r ++ rest)) =
          (n ++ (valueText a.2 ++ [' '])) ++ (d :: s ++ rest) := by simp [hend]
      have hlength : (n ++ (valueText a.2 ++ [' '])).length =
          n.length + (valueText a.2).length + 1 := by simp; omega
      have hlast : (c :: (n ++ (valueText a.2 ++ [' ']))).getLast? = some ' ' := by
        simp [List.getLast?_cons, List.getLast?_append]
      obtain ⟨hread, hleft⟩ := ih hr hend
      rw [hempty, hsplit, List.take_left' (by simpa using hlength),
        List.drop_left' (by simpa using hlength), hlast]
      simp only [Option.getD_some, List.map_cons, hread, hleft, and_self]

theorem length_tagEnd_le (closed : Bool) (attributes : List (Text × Text)) :
    (tagEnd closed).length ≤ (attributesText closed attributes).length := by
  induction attributes with
  | nil => cases closed <;> decide
  | cons a r ih =>
    simp only [attributesText, List.length_cons, List.length_append]
    omega

/-- Behind a name and the gap after it stand the attributes. -/
theorem exists_attributesFrom (closed : Bool) (h : ∀ a ∈ attributes, isName a.1 = true)
    (name rest : Text) {head : Text}
    (hhead : head = (name ++ (attributesText closed attributes ++ rest)).take
      (name.length + gapLength (attributesText closed attributes ++ rest))) :
    ∃ as, attributesFrom (head.getLast?.getD '<')
        ((name ++ (attributesText closed attributes ++ rest)).drop head.length) =
        (as, tagEnd closed ++ rest) ∧
      as.map (fun a => (a.name, a.value)) = attributes.map (fun a => (a.1, escape a.2)) := by
  rw [gapLength_attributesText closed h] at hhead
  rcases attributesText_cases closed h with ⟨rfl, rfl⟩ | ⟨hempty, d, s, hend, -⟩
  · obtain rfl : head = name := hhead.trans (List.take_left' rfl)
    refine ⟨[], ?_, rfl⟩
    rw [List.drop_left]
    exact attributesFrom_stop _ rest (by decide)
  · have hsplit : name ++ (attributesText closed attributes ++ rest) =
        (name ++ [' ']) ++ (d :: s ++ rest) := by simp [hend]
    obtain rfl : head = name ++ [' '] := by
      rw [hhead, hsplit, hempty]
      exact List.take_left' (by simp)
    obtain ⟨hread, hleft⟩ := attributesFrom_attributesText closed h rest hend
    refine ⟨_, ?_, hread⟩
    rw [hsplit, List.drop_left, List.getLast?_concat, ← hleft]
    rfl

/-- A start tag is read back, with the values of its attributes as written. -/
theorem read_text (closed : Bool) (hname : isName name = true)
    (h : ∀ a ∈ attributes, isName a.1 = true) (rest : Text) :
    read (name ++ (attributesText closed attributes ++ rest)) =
      .complete (name ++ attributesText closed attributes).length
        ⟨name, attributes.map (fun a => (a.1, escape a.2)), closed⟩ := by
  have htake : (name ++ (attributesText closed attributes ++ rest)).takeWhile
      (fun c => !endsName c) = name := by
    rw [List.takeWhile_append_of_pos fun c hc => by
      rw [endsName_of_isNameLetter (isNameLetter_of_isName hname hc), Bool.not_false]]
    rcases attributesText_cases closed h with ⟨rfl, rfl⟩ | ⟨-, d, s, hend, -⟩
    · simp [attributesText, endsName]
    · simp [hend, endsName]
  obtain ⟨as, hfrom, has⟩ := exists_attributesFrom closed h name rest rfl
  have hlower : as.map (fun a => (lower a.name, a.value)) =
      attributes.map (fun a => (a.1, escape a.2)) := by
    have hmap := congrArg (List.map fun p : Text × Text => (lower p.1, p.2)) has
    rw [List.map_map, List.map_map] at hmap
    refine hmap.trans (List.map_congr_left fun a ha => ?_)
    show (lower a.1, escape a.2) = _
    rw [lower_of_isName (h a ha)]
  have hlength := length_tagEnd_le closed attributes
  unfold read
  simp only [htake, List.drop_left, hfrom, hlower, lower_of_isName hname]
  cases closed <;> simp [tagEnd] at hlength ⊢ <;> omega

end StartTag

end Markdown.Html
