import Markdown.Proofs.WellFormed
import Markdown.References

/-!
# The forms of definitions

What a line that defines something looks like. A link definition has an identifier in brackets, a colon,
an address, perhaps in angle brackets, and perhaps a title in quotes; a footnote has an identifier
behind a caret, a colon, and its content. `WrittenLink` and `WrittenNote` give the parts of such a line,
with the blanks between them. Reading takes the parts out again (`linkLine?_line`,
`footnoteLine?_line`), and a line that defines nothing has neither of the two forms
(`definitionLine?_eq_none_iff`).

An angle bracket in front of an address never belongs to it, unless nothing else does. So the parts of a
line are not unique: those that are read have the bracket in front of the address.
-/

namespace Markdown.References

open Text Canonical

variable {t rest : Text} {d : DefinitionLine}

/-! ### Titles -/

/-- A title as it is written behind an address. -/
structure WrittenTitle where
  /-- The blanks in front of it. -/
  gap : Text
  /-- The mark on both sides. -/
  mark : Char
  /-- The title. -/
  text : Text
  gap_ne_nil : gap ≠ []
  gap_blank : allBlank gap = true
  isMark : mark = '"' ∨ mark = '\''
  mark_notMem : mark ∉ text

/-- The title with its marks and blanks. -/
def WrittenTitle.source (w : WrittenTitle) : Text :=
  w.gap ++ w.mark :: (w.text ++ [w.mark])

theorem isBlank_of_isMark {c : Char} (h : c = '"' ∨ c = '\'') : isBlank c = false := by
  rcases h with rfl | rfl <;> rfl

theorem titleToEnd?_source (w : WrittenTitle) {trail : Text} (h : allBlank trail = true) :
    titleToEnd? (w.source ++ trail) = some w.text := by
  obtain ⟨c, r, hgap⟩ := List.exists_cons_of_ne_nil w.gap_ne_nil
  have hblank := w.gap_blank
  rw [hgap, allBlank, List.all_cons, Bool.and_eq_true] at hblank
  have hstart : trimStart (r ++ w.mark :: (w.text ++ w.mark :: trail)) =
      w.mark :: (w.text ++ w.mark :: trail) := by
    rw [trimStart_append hblank.2, trimStart_cons (isBlank_of_isMark w.isMark)]
  have hmark : (w.mark == '"' || w.mark == '\'') = true := by simpa using w.isMark
  have hsource : w.source ++ trail = c :: (r ++ w.mark :: (w.text ++ w.mark :: trail)) := by
    simp [WrittenTitle.source, hgap]
  rw [hsource, titleToEnd?, if_pos hblank.1, hstart]
  dsimp only
  rw [if_pos hmark, cutAt?_append trail w.mark_notMem]
  exact if_pos h

theorem titleToEnd?_of_allBlank (h : allBlank t = true) : titleToEnd? t = none := by
  cases t with
  | nil => rfl
  | cons c r =>
    rw [allBlank, List.all_cons, Bool.and_eq_true] at h
    rw [titleToEnd?, if_pos h.1, trimStart_eq_nil_iff.mpr h.2]

theorem exists_source_of_titleToEnd? {title : Text} (h : titleToEnd? t = some title) :
    ∃ (w : WrittenTitle) (trail : Text), w.text = title ∧ allBlank trail = true ∧
      t = w.source ++ trail := by
  unfold titleToEnd? at h
  split at h
  · next c r =>
    obtain ⟨hc, h⟩ := Option.ite_none_right_eq_some.mp h
    split at h
    · next q body hbody =>
      obtain ⟨hq, h⟩ := Option.ite_none_right_eq_some.mp h
      split at h
      · next title' trail hcut =>
        obtain ⟨htrail, h⟩ := Option.ite_none_right_eq_some.mp h
        obtain rfl := Option.some.inj h
        obtain ⟨rfl, hmark⟩ := cutAt?_eq_some hcut
        obtain ⟨gap, hgap, hr⟩ := exists_eq_trimStart r
        refine ⟨⟨c :: gap, q, title', List.cons_ne_nil _ _, ?_, by simpa using hq, hmark⟩, trail, rfl,
          htrail, ?_⟩
        · rw [allBlank, List.all_cons, hc]
          exact hgap
        · rw [hr, hbody]
          simp [WrittenTitle.source]
      · cases h
    · cases h
  · cases h

/-! ### Addresses -/

/-- What stands for a bracket that may be there. -/
def bracket (there : Bool) (c : Char) : Text :=
  if there then [c] else []

/-- What stands behind an address: nothing, or a blank and more. -/
def EndsAddress (t : Text) : Prop :=
  t.head?.all isBlank = true

/-- A text without the bracket in front of an address. -/
def unbracketed (t : Text) : Text :=
  match t with
  | '<' :: r => if (r.takeWhile isUrlChar).isEmpty then t else r
  | _ => t

theorem takeWhile_bracket (closed : Bool) (h : EndsAddress rest) :
    (bracket closed '>' ++ rest).takeWhile isUrlChar = [] := by
  cases closed with
  | true => rfl
  | false =>
    cases rest with
    | nil => rfl
    | cons c r =>
      have hc : isBlank c = true := by simpa [EndsAddress] using h
      simp [bracket, isUrlChar, hc]

theorem unbracketed_source {url tail : Text} {opened : Bool} (hne : url ≠ [])
    (hurl : ∀ c ∈ url, isUrlChar c = true)
    (hopened : opened = false → url.head? = some '<' → url = ['<'])
    (htail : tail.takeWhile isUrlChar = []) :
    unbracketed (bracket opened '<' ++ (url ++ tail)) = url ++ tail := by
  obtain ⟨c, u, rfl⟩ := List.exists_cons_of_ne_nil hne
  cases opened with
  | true =>
    have hrun : ((c :: u ++ tail).takeWhile isUrlChar).isEmpty = false := by
      rw [List.takeWhile_append_of_pos hurl, htail, List.append_nil]
      rfl
    exact if_neg (Bool.eq_false_iff.mp hrun)
  | false =>
    show unbracketed (c :: u ++ tail) = c :: u ++ tail
    by_cases hc : c = '<'
    · obtain ⟨rfl, rfl⟩ : c = '<' ∧ u = [] := by simpa using hopened rfl (by simp [hc])
      exact if_pos (by simp [htail])
    · unfold unbracketed
      split
      · next heq => exact absurd (List.cons.inj heq).1 hc
      · rfl

theorem address?_eq (t : Text) :
    address? t = if ((unbracketed t).takeWhile isUrlChar).isEmpty then none else
      match (unbracketed t).drop ((unbracketed t).takeWhile isUrlChar).length with
      | '>' :: rest => some ((unbracketed t).takeWhile isUrlChar, rest)
      | rest => some ((unbracketed t).takeWhile isUrlChar, rest) := rfl

/-- The bracket behind an address is passed over. -/
theorem address?_of_unbracketed {url : Text} {closed : Bool} (hne : url ≠ [])
    (hurl : ∀ c ∈ url, isUrlChar c = true) (hrest : EndsAddress rest)
    (h : unbracketed t = url ++ (bracket closed '>' ++ rest)) : address? t = some (url, rest) := by
  have hrun : (unbracketed t).takeWhile isUrlChar = url := by
    rw [h, List.takeWhile_append_of_pos hurl, takeWhile_bracket closed hrest, List.append_nil]
  have hdrop : (unbracketed t).drop url.length = bracket closed '>' ++ rest := by
    rw [h, List.drop_left]
  rw [address?_eq, hrun, hdrop, if_neg (by simpa using hne)]
  cases closed with
  | true => rfl
  | false =>
    split
    · next rest' heq =>
      obtain rfl : rest = '>' :: rest' := heq
      cases hrest
    · rfl

theorem eq_bracket_append_unbracketed (t : Text) :
    ∃ opened, t = bracket opened '<' ++ unbracketed t := by
  unfold unbracketed
  split
  · split
    · exact ⟨false, rfl⟩
    · exact ⟨true, rfl⟩
  · exact ⟨false, rfl⟩

theorem address?_eq_some {url : Text} (h : address? t = some (url, rest)) :
    ∃ opened closed, t = bracket opened '<' ++ (url ++ (bracket closed '>' ++ rest)) ∧ url ≠ [] ∧
      ∀ c ∈ url, isUrlChar c = true := by
  rw [address?_eq] at h
  obtain ⟨opened, hopened⟩ := eq_bracket_append_unbracketed t
  have hsplit := takeWhile_append_drop isUrlChar (unbracketed t)
  obtain ⟨hne, h⟩ := Option.ite_none_left_eq_some.mp h
  split at h
  · next rest' hdrop =>
    obtain ⟨rfl, rfl⟩ := Prod.mk.inj (Option.some.inj h)
    refine ⟨opened, true, ?_, by simpa using hne, fun c hc => of_mem_takeWhile hc⟩
    rw [hdrop] at hsplit
    exact hopened.trans (congrArg _ hsplit.symm)
  · next rest' hdrop =>
    obtain ⟨rfl, rfl⟩ := Prod.mk.inj (Option.some.inj h)
    refine ⟨opened, false, ?_, by simpa using hne, fun c hc => of_mem_takeWhile hc⟩
    exact hopened.trans (congrArg _ hsplit.symm)

/-! ### Link definitions -/

/-- The definition of a link as it is written on a line. -/
structure WrittenLink where
  /-- The blanks at the start of the line. -/
  lead : Text
  /-- The identifier. -/
  id : Text
  /-- The blanks in front of the address. -/
  gap : Text
  /-- Whether a bracket stands in front of the address. -/
  opened : Bool
  /-- The address. -/
  url : Text
  /-- Whether a bracket stands behind the address. -/
  closed : Bool
  /-- The title, if there is one. -/
  title : Option WrittenTitle
  /-- The blanks at the end of the line. -/
  trail : Text
  lead_blank : allBlank lead = true
  id_ne_nil : id ≠ []
  id_closed : ']' ∉ id
  id_noCaret : id.head? ≠ some '^'
  gap_blank : allBlank gap = true
  url_ne_nil : url ≠ []
  isUrlChar_url : ∀ c ∈ url, isUrlChar c = true
  trail_blank : allBlank trail = true

namespace WrittenLink

variable (w : WrittenLink)

/-- What stands behind the address and its bracket. -/
def tail : Text :=
  (w.title.map WrittenTitle.source).getD [] ++ w.trail

/-- The address with the brackets around it, and what stands behind. -/
def target : Text :=
  bracket w.opened '<' ++ (w.url ++ (bracket w.closed '>' ++ w.tail))

/-- The line. -/
def line : Text :=
  w.lead ++ '[' :: (w.id ++ ']' :: ':' :: (w.gap ++ w.target))

/-- What the line defines. -/
def definition : DefinitionLine :=
  .link w.id w.url (w.title.map WrittenTitle.text)

/-- The bracket in front of the address does not belong to it. -/
def IsUnbracketed : Prop :=
  w.opened = false → w.url.head? = some '<' → w.url = ['<']

theorem endsAddress_tail : EndsAddress w.tail := by
  have hhead : ∀ t : Text, allBlank t = true → EndsAddress t := by
    intro t ht
    cases t with
    | nil => rfl
    | cons c r => simpa [EndsAddress] using (List.all_eq_true.mp ht) c List.mem_cons_self
  unfold tail
  cases w.title with
  | none => exact hhead _ w.trail_blank
  | some title =>
    obtain ⟨c, r, hgap⟩ := List.exists_cons_of_ne_nil title.gap_ne_nil
    have hblank := title.gap_blank
    rw [hgap] at hblank
    simpa [EndsAddress, WrittenTitle.source, hgap] using hhead (c :: r) hblank

theorem address?_target (h : w.IsUnbracketed) : address? w.target = some (w.url, w.tail) :=
  address?_of_unbracketed w.url_ne_nil w.isUrlChar_url w.endsAddress_tail
    (unbracketed_source w.url_ne_nil w.isUrlChar_url h
      (takeWhile_bracket w.closed w.endsAddress_tail))

end WrittenLink

theorem bracketed?_append {id : Text} (hne : id ≠ []) (hid : ']' ∉ id) (rest : Text) :
    bracketed? (id ++ ']' :: ':' :: rest) = some (id, rest) := by
  rw [bracketed?, cutAt?_append _ hid]
  exact if_neg (by simpa using hne)

theorem bracketed?_eq_some {id : Text} (h : bracketed? t = some (id, rest)) :
    t = id ++ ']' :: ':' :: rest ∧ id ≠ [] ∧ ']' ∉ id := by
  unfold bracketed? at h
  split at h
  · next id' rest' hcut =>
    obtain ⟨hne, h⟩ := Option.ite_none_left_eq_some.mp h
    obtain ⟨rfl, rfl⟩ := Prod.mk.inj (Option.some.inj h)
    obtain ⟨rfl, hid⟩ := cutAt?_eq_some hcut
    exact ⟨rfl, by simpa using hne, hid⟩
  · cases h

theorem linkLine?_eq {line r : Text} {c : Char} (hstart : trimStart line = '[' :: c :: r)
    (hc : c ≠ '^' ∧ c ≠ ']') : linkLine? line =
      match bracketed? (c :: r) with
      | none => none
      | some (id, rest) =>
        match address? (trimStart rest) with
        | none => none
        | some (url, rest) =>
          match titleToEnd? rest with
          | some title => some (.link id url (some title))
          | none => if allBlank rest then some (.link id url none) else none := by
  rw [linkLine?, hstart]
  exact if_neg (by simpa using hc)

/-- What a line with a title, or with none, ends with. -/
theorem titleToEnd?_tail (w : WrittenLink) :
    titleToEnd? w.tail = w.title.map WrittenTitle.text ∧ (w.title = none → allBlank w.tail = true) := by
  unfold WrittenLink.tail
  cases w.title with
  | none => exact ⟨titleToEnd?_of_allBlank w.trail_blank, fun _ => w.trail_blank⟩
  | some title => exact ⟨titleToEnd?_source title w.trail_blank, nofun⟩

theorem trimStart_target (w : WrittenLink) : trimStart (w.gap ++ w.target) = w.target := by
  obtain ⟨c, u, hurl⟩ := List.exists_cons_of_ne_nil w.url_ne_nil
  have hc : isUrlChar c = true := w.isUrlChar_url c (by simp [hurl])
  have hblank : isBlank c = false := by
    rw [isUrlChar, Bool.and_eq_true, Bool.not_eq_true'] at hc
    exact hc.1
  rw [trimStart_append w.gap_blank, WrittenLink.target, hurl]
  cases w.opened with
  | true => exact trimStart_cons (by decide) _
  | false => exact trimStart_cons hblank _

theorem WrittenLink.trimStart_line (w : WrittenLink) :
    trimStart w.line = '[' :: (w.id ++ ']' :: ':' :: (w.gap ++ w.target)) := by
  rw [line, trimStart_append w.lead_blank, trimStart_cons (by decide)]

theorem WrittenLink.exists_id_eq_cons (w : WrittenLink) :
    ∃ c r, w.id = c :: r ∧ c ≠ '^' ∧ c ≠ ']' := by
  obtain ⟨c, r, hid⟩ := List.exists_cons_of_ne_nil w.id_ne_nil
  have hcaret := w.id_noCaret
  have hclosed := w.id_closed
  rw [hid] at hcaret hclosed
  exact ⟨c, r, hid, fun heq => hcaret (by rw [heq]; rfl), (List.ne_of_not_mem_cons hclosed).symm⟩

/-- The definition that is written is read. -/
theorem linkLine?_line (w : WrittenLink) (h : w.IsUnbracketed) :
    linkLine? w.line = some w.definition := by
  obtain ⟨c, r, hid, hc⟩ := w.exists_id_eq_cons
  have hbracketed := bracketed?_append w.id_ne_nil w.id_closed (w.gap ++ w.target)
  have hstart := w.trimStart_line
  rw [hid, List.cons_append] at hbracketed hstart
  obtain ⟨htitle, hblank⟩ := titleToEnd?_tail w
  rw [linkLine?_eq hstart hc, hbracketed]
  dsimp only
  rw [trimStart_target, w.address?_target h]
  dsimp only
  rw [htitle, WrittenLink.definition, hid]
  cases hw : w.title with
  | some title => rfl
  | none => exact if_pos (hblank hw)

/-- What is read from a line is written on it. -/
theorem exists_line_of_linkLine? {line : Text} (h : linkLine? line = some d) :
    ∃ w : WrittenLink, w.line = line ∧ w.definition = d := by
  obtain ⟨lead, hlead, hline⟩ := exists_eq_trimStart line
  obtain ⟨c, r, hstart, hc⟩ : ∃ c r, trimStart line = '[' :: c :: r ∧ c ≠ '^' ∧ c ≠ ']' := by
    unfold linkLine? at h
    split at h
    · next c r hstart =>
      obtain ⟨hc, -⟩ := Option.ite_none_left_eq_some.mp h
      exact ⟨c, r, hstart, by simpa using hc⟩
    · cases h
  rw [linkLine?_eq hstart hc] at h
  split at h
  · cases h
  · next id behind hbracketed =>
    obtain ⟨hbehind, hne, hid⟩ := bracketed?_eq_some hbracketed
    have hcaret : id.head? ≠ some '^' := by
      obtain ⟨e, u, rfl⟩ := List.exists_cons_of_ne_nil hne
      rw [List.cons_append, List.cons.injEq] at hbehind
      simpa [← hbehind.1] using hc.1
    obtain ⟨gap, hgap, hgapline⟩ := exists_eq_trimStart behind
    split at h
    · cases h
    · next url rest haddress =>
      obtain ⟨opened, closed, htarget, hurl, hchars⟩ := address?_eq_some haddress
      -- All parts but what stands behind the address.
      have hwhole : ∀ (title : Option WrittenTitle) (trail : Text), allBlank trail = true →
          rest = (title.map WrittenTitle.source).getD [] ++ trail →
          ∃ w : WrittenLink, w.line = line ∧
            w.definition = .link id url (title.map WrittenTitle.text) := by
        intro title trail htrail hrest
        refine ⟨⟨lead, id, gap, opened, url, closed, title, trail, hlead, hne, hid, hcaret, hgap, hurl,
          hchars, htrail⟩, ?_, rfl⟩
        rw [WrittenLink.line, WrittenLink.target, WrittenLink.tail, hline, hstart, hbehind, hgapline,
          htarget, hrest]
      split at h
      · next title htitle =>
        obtain ⟨w, trail, rfl, htrail, hrest⟩ := exists_source_of_titleToEnd? htitle
        obtain rfl := Option.some.inj h
        exact hwhole (some w) trail htrail hrest
      · obtain ⟨hblank, h⟩ := Option.ite_none_right_eq_some.mp h
        obtain rfl := Option.some.inj h
        exact hwhole none rest hblank rfl

/-- A bracket that was taken for a part of the address is put in front of it. -/
theorem WrittenLink.exists_isUnbracketed (w : WrittenLink) :
    ∃ v : WrittenLink, v.line = w.line ∧ v.IsUnbracketed := by
  by_cases h : w.IsUnbracketed
  · exact ⟨w, rfl, h⟩
  · obtain ⟨hopened, hhead, hmore⟩ : w.opened = false ∧ w.url.head? = some '<' ∧ w.url ≠ ['<'] := by
      simpa [WrittenLink.IsUnbracketed] using h
    obtain ⟨u, hurl⟩ := List.head?_eq_some_iff.mp hhead
    have hchars : ∀ c ∈ u, isUrlChar c = true := fun c hc =>
      w.isUrlChar_url c (by rw [hurl]; exact List.mem_cons_of_mem _ hc)
    have hne : u ≠ [] := by
      rintro rfl
      exact hmore hurl
    refine ⟨{ w with opened := true, url := u, url_ne_nil := hne, isUrlChar_url := hchars }, ?_,
      nofun⟩
    simp [WrittenLink.line, WrittenLink.target, WrittenLink.tail, hopened, hurl, bracket]

/-! ### Footnotes -/

/-- The definition of a footnote as it is written on a line. -/
structure WrittenNote where
  /-- The blanks at the start of the line. -/
  lead : Text
  /-- The identifier. -/
  id : Text
  /-- The blanks in front of the content. -/
  gap : Text
  /-- The content. -/
  content : Text
  /-- The blanks at the end of the line. -/
  trail : Text
  lead_blank : allBlank lead = true
  id_ne_nil : id ≠ []
  id_closed : ']' ∉ id
  gap_blank : allBlank gap = true
  trim_content : trim content = content
  trail_blank : allBlank trail = true

/-- The line. -/
def WrittenNote.line (w : WrittenNote) : Text :=
  w.lead ++ '[' :: '^' :: (w.id ++ ']' :: ':' :: (w.gap ++ (w.content ++ w.trail)))

/-- What the line defines. -/
def WrittenNote.definition (w : WrittenNote) : DefinitionLine :=
  .footnote w.id w.content

/-- Blanks around a trimmed text are trimmed. -/
theorem trim_blanks {a b : Text} (ha : allBlank a = true) (hb : allBlank b = true)
    (ht : trim t = t) : trim (a ++ (t ++ b)) = t := by
  rw [trim, trimStart_append ha, ← trim]
  cases t with
  | nil =>
    rw [List.nil_append, trim, trimStart_eq_nil_iff.mpr hb]
    rfl
  | cons c r =>
    exact trim_append (by simp [visible_head_of_trim ht]) (visible_getLast_of_trim ht) hb

theorem footnoteLine?_line (w : WrittenNote) : footnoteLine? w.line = some w.definition := by
  have hstart : trimStart w.line =
      '[' :: '^' :: (w.id ++ ']' :: ':' :: (w.gap ++ (w.content ++ w.trail))) := by
    rw [WrittenNote.line, trimStart_append w.lead_blank, trimStart_cons (by decide)]
  rw [footnoteLine?, hstart]
  show (bracketed? _).map (fun p => DefinitionLine.footnote p.1 (trim p.2)) = _
  rw [bracketed?_append w.id_ne_nil w.id_closed, Option.map_some,
    trim_blanks w.gap_blank w.trail_blank w.trim_content]
  rfl

theorem exists_line_of_footnoteLine? {line : Text} (h : footnoteLine? line = some d) :
    ∃ w : WrittenNote, w.line = line ∧ w.definition = d := by
  obtain ⟨lead, hlead, hline⟩ := exists_eq_trimStart line
  unfold footnoteLine? at h
  split at h
  · next r hstart =>
    obtain ⟨⟨id, behind⟩, hbracketed, rfl⟩ := Option.map_eq_some_iff.mp h
    obtain ⟨hbehind, hne, hid⟩ := bracketed?_eq_some hbracketed
    obtain ⟨gap, trail, hgap, htrail, hcontent⟩ := exists_eq_trim behind
    refine ⟨⟨lead, id, gap, trim behind, trail, hlead, hne, hid, hgap, trim_trim behind, htrail⟩,
      ?_, rfl⟩
    rw [WrittenNote.line, ← hcontent, hline, hstart, hbehind]
  · cases h

/-! ### Lines that define something -/

/-- The line of a link definition is none of a footnote. -/
theorem footnoteLine?_of_writtenLink (w : WrittenLink) : footnoteLine? w.line = none := by
  obtain ⟨c, r, hid, hc, -⟩ := w.exists_id_eq_cons
  have hstart := w.trimStart_line
  rw [hid, List.cons_append] at hstart
  unfold footnoteLine?
  split
  · next heq =>
    rw [hstart] at heq
    simp only [List.cons.injEq, true_and] at heq
    exact absurd heq.1 hc
  · rfl

theorem definitionLine?_writtenLink (w : WrittenLink) (h : w.IsUnbracketed) :
    definitionLine? w.line = some w.definition := by
  rw [definitionLine?, footnoteLine?_of_writtenLink]
  exact linkLine?_line w h

theorem definitionLine?_writtenNote (w : WrittenNote) :
    definitionLine? w.line = some w.definition := by
  rw [definitionLine?, footnoteLine?_line]

/-- The line has the form of a definition. -/
def HasForm (line : Text) : Prop :=
  (∃ w : WrittenLink, w.line = line) ∨ ∃ w : WrittenNote, w.line = line

/-- The lines that define something are those with the form of a definition. -/
theorem definitionLine?_eq_none_iff {line : Text} : definitionLine? line = none ↔ ¬ HasForm line := by
  constructor
  · rintro h (⟨w, rfl⟩ | ⟨w, rfl⟩)
    · obtain ⟨v, hline, hv⟩ := w.exists_isUnbracketed
      rw [← hline, definitionLine?_writtenLink v hv] at h
      cases h
    · rw [definitionLine?_writtenNote] at h
      cases h
  · intro h
    cases hd : definitionLine? line with
    | none => rfl
    | some d =>
      unfold definitionLine? at hd
      split at hd
      · next d' hnote =>
        obtain ⟨w, hw, -⟩ := exists_line_of_footnoteLine? hnote
        exact absurd (.inr ⟨w, hw⟩) h
      · obtain ⟨w, hw, -⟩ := exists_line_of_linkLine? hd
        exact absurd (.inl ⟨w, hw⟩) h

end Markdown.References
