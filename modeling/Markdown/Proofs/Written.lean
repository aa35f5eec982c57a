import Markdown.Proofs.Guarded
import Markdown.Proofs.Markup

/-!
# Reading back what was written

A tree is written as HTML: texts are escaped, elements stand between tags. `Html.parse` gets the tree
back (`Html.parse_writes`), for trees in which neighbouring texts are one text and white space alone
has been shrunk, unless it is preformatted. The proof follows the tree; what carries it is the state of
the reader, in which a written element adds one node to the innermost open element.
-/

namespace Markdown.Html

open Text

/-! ### The written form -/

/-- Whether an element has no content and no end tag. -/
def Tag.isEmptyElement (tag : Tag) : Bool :=
  emptyElements.contains tag.name

/-- The start tag of an element. -/
def Tag.startText (tag : Tag) : Text :=
  '<' :: (tag.name ++ attributesText tag.isEmptyElement tag.attributes)

/-- The end tag of an element. -/
def Tag.endText (tag : Tag) : Text :=
  '<' :: '/' :: (tag.name ++ ['>'])

/-- Whether white space inside an element stays as it is. -/
def Tag.isPreformatted (tag : Tag) : Bool :=
  tag.isOneOf ["pre", "textarea"]

namespace Node

mutual

/-- The written form of a node. -/
def write : Node → Text
  | .text _ content => escape content
  | .element tag children =>
    if tag.isEmptyElement then tag.startText else tag.startText ++ (writes children ++ tag.endText)

/-- The written form of nodes. -/
def writes : List Node → Text
  | [] => []
  | n :: r => write n ++ writes r

end

theorem writes_eq_flatMap (ns : List Node) : writes ns = ns.flatMap write := by
  induction ns with
  | nil => rfl
  | cons n ns ih => rw [writes, ih, List.flatMap_cons]

@[simp] theorem writes_append (ns ms : List Node) : writes (ns ++ ms) = writes ns ++ writes ms := by
  simp [writes_eq_flatMap]

/-- Whether some nodes begin with text. -/
def beginWithText : List Node → Bool
  | .text _ _ :: _ => true
  | _ => false

mutual

/-- A node that is read back as it is; `pre` tells that it stands in preformatted text. -/
def isWritten (pre : Bool) : Node → Bool
  | .text kind content =>
    kind = .plain && !content.isEmpty && (pre || Growth.empty.shrink content = content)
  | .element tag children =>
    tag.isWritten && (!tag.isEmptyElement || children.isEmpty) &&
      areWritten (pre || tag.isPreformatted) children

/-- Nodes that are read back as they are: no text stands beside another one. -/
def areWritten (pre : Bool) : List Node → Bool
  | [] => true
  | n :: r => isWritten pre n && !(beginWithText [n] && beginWithText r) && areWritten pre r

end

end Node

/-! ### Tokens -/

namespace Token

variable {name rest : Text}

theorem step_of_ne {c : Char} (hlt : c ≠ '<') (hamp : c ≠ '&') (r : Text) :
    step (.content false) c r =
      ⟨(r.takeWhile fun d => d ≠ '<' && d ≠ '&').length,
        .text (c :: r.takeWhile fun d => d ≠ '<' && d ≠ '&'), .content false⟩ := by
  simp [step, hlt, hamp]

theorem markup_of_read {c : Char} {r : Text} {n : Nat} {tag : StartTag}
    (hc : isAsciiLetter c = true) (hread : StartTag.read (c :: r) = .complete n tag) :
    markup (c :: r) = .complete n (.opening tag) := by
  unfold markup
  split
  · next h => cases h
  · next h => exact absurd (List.cons.inj h).1 (ne_of_class hc (by decide))
  · next h => exact absurd (List.cons.inj h).1 (ne_of_class hc (by decide))
  · next h => exact absurd (List.cons.inj h).1 (ne_of_class hc (by decide))
  · next h =>
    obtain ⟨rfl, rfl⟩ := List.cons.inj h
    rw [if_pos hc, hread]

/-- Elements whose texts are ordinary have no body that is read in a mode of its own. -/
theorem not_body_of_textKind? {tag : Tag} (h : tag.textKind? = none) :
    ¬ (tag.name = "script".toList ∨ tag.name = "style".toList) := by
  have hkinds : ∀ name : Text, (name = "script".toList ∨ name = "style".toList) →
      (textKinds.find? fun k => (Tag.mk name []).isNamed k.1) ≠ none := by
    rintro name (rfl | rfl) <;> decide +kernel
  rw [Tag.textKind?, Option.map_eq_none_iff] at h
  exact fun hbody => hkinds tag.name hbody h

/-- A start tag is one token. No body of a script or a style sheet follows. -/
theorem step_startText {tag : Tag} (closed : Bool) (h : tag.isWritten = true) (rest : Text) :
    step (.content false) '<' (tag.name ++ (attributesText closed tag.attributes ++ rest)) =
      ⟨(tag.name ++ attributesText closed tag.attributes).length,
        .opening ⟨tag.name, tag.attributes.map (fun a => (a.1, escape a.2)), closed⟩,
        .content false⟩ := by
  simp only [Tag.isWritten, Bool.and_eq_true, List.all_eq_true, Option.isNone_iff_eq_none] at h
  obtain ⟨⟨⟨hname, hkind⟩, hattributes⟩, -⟩ := h
  have hread := StartTag.read_text closed hname hattributes rest
  obtain ⟨c, r, hcons, hc⟩ := exists_cons_of_isName hname
  have hmarkup : markup (tag.name ++ (attributesText closed tag.attributes ++ rest)) =
      .complete (tag.name ++ attributesText closed tag.attributes).length
        (.opening ⟨tag.name, tag.attributes.map (fun a => (a.1, escape a.2)), closed⟩) := by
    rw [hcons] at hread ⊢
    exact markup_of_read hc hread
  have hbody := not_or.mp (not_body_of_textKind? hkind)
  have hmode : modeAfter false
      (.opening ⟨tag.name, tag.attributes.map (fun a => (a.1, escape a.2)), closed⟩) =
      .content false := by
    simp only [modeAfter, hbody.1, hbody.2, decide_false, Bool.or_false, Bool.and_false,
      Bool.false_eq_true, if_false]
  simp only [step, if_true, bracketStep, hmarkup, hmode]

theorem firstEnd?_bracketEnd? {s : Text} (h : '>' ∉ s) (rest : Text) :
    firstEnd? bracketEnd? (s ++ '>' :: rest) = some (s.length, 1) := by
  induction s with
  | nil => rfl
  | cons c r ih =>
    obtain ⟨hc, hr⟩ := List.ne_and_not_mem_of_not_mem_cons h
    have hend : bracketEnd? (c :: (r ++ '>' :: rest)) = none := by simp [bracketEnd?, hc.symm]
    rw [List.cons_append, firstEnd?, hend, ih hr]
    rfl

theorem isEndTagChar_of_isNameLetter {c : Char} (h : isNameLetter c = true) :
    isEndTagChar c = true := by
  simp [isNameLetter, isEndTagChar, isAsciiLetter] at h ⊢
  tauto

/-- An end tag is one token. -/
theorem step_endText (h : isName name = true) (rest : Text) :
    step (.content false) '<' ('/' :: (name ++ '>' :: rest)) =
      ⟨name.length + 2, .closing name, .content false⟩ := by
  have hend : '>' ∉ name := fun hmem =>
    absurd (isNameLetter_of_isName h hmem) (by decide)
  have hletters : ∀ c ∈ name, isEndTagChar c = true := fun c hc =>
    isEndTagChar_of_isNameLetter (isNameLetter_of_isName h hc)
  have htake : (name ++ '>' :: rest).takeWhile isEndTagChar = name := by
    rw [List.takeWhile_append_of_pos hletters]
    simp [isEndTagChar, isAsciiLetter, isAsciiDigit]
  have hname : endTagName? (name ++ '>' :: rest) = some name := by
    obtain ⟨c, r, rfl, hc⟩ := exists_cons_of_isName h
    have hblank := isBlank_of_isNameLetter (isNameLetter_of_isName h List.mem_cons_self)
    have hstart : (c :: r ++ '>' :: rest).dropWhile isBlank = c :: r ++ '>' :: rest := by
      simp [hblank]
    have hbracket : behindBlanks? '>' ('>' :: rest) = some 1 := by
      have : isBlank '>' = false := by decide
      simp [behindBlanks?, this]
    unfold endTagName?
    simp only [hstart, htake, List.drop_left, hbracket]
    simp [hc]
  have hmarkup : markup ('/' :: (name ++ '>' :: rest)) =
      .complete (name.length + 2) (.closing name) := by
    show endTag (name ++ '>' :: rest) = _
    rw [endTag, upTo, firstEnd?_bracketEnd? hend, hname]
    simp [lower_of_isName h]
    omega
  simp only [step, if_true, bracketStep, hmarkup, modeAfter]

/-- A reference by name is one token. -/
theorem step_entity {c : Char} (hc : isAsciiLetter c = true) {r : Text}
    (hr : (c :: r).all isReferenceChar = true) (rest : Text) :
    step (.content false) '&' (c :: (r ++ ';' :: rest)) =
      ⟨r.length + 2, .entity (c :: r), .content false⟩ := by
  have htake : (c :: (r ++ ';' :: rest)).takeWhile isReferenceChar = c :: r := by
    rw [← List.cons_append, List.takeWhile_append_of_pos (List.all_eq_true.mp hr),
      List.takeWhile_cons_of_neg (by decide), List.append_nil]
  have hname : referenceName? (c :: (r ++ ';' :: rest)) = some (c :: r) := by
    unfold referenceName?
    simp [htake, hc]
  have hhash : c ≠ '#' := ne_of_class hc (by decide)
  have hamp : ampersandStep false (c :: (r ++ ';' :: rest)) =
      ⟨r.length + 2, .entity (c :: r), .content false⟩ := by
    unfold ampersandStep
    split
    · next h => cases h
    · next h => exact absurd (List.cons.inj h).1 hhash
    · next h =>
      obtain ⟨rfl, rfl⟩ := List.cons.inj h
      simp [hc, hname]
  simp [step, hamp]

end Token

/-! ### Reading content -/

namespace Growth

/-- The tree when the rest of the input has been read as content. -/
def readAll (g : Growth) (t : Text) : Report (List Node) := do
  let g ← (Token.scan t).foldlM read g
  pure g.finish

theorem readAll_nil (g : Growth) : g.readAll [] = pure g.finish := by
  simp [readAll, Token.scan, Token.segments]

/-- One token, and then the rest. -/
theorem readAll_cons {c : Char} {r : Text} {n : Nat} {token : Token}
    (h : Token.step (.content false) c r = ⟨n, token, .content false⟩) (g : Growth) :
    g.readAll (c :: r) = (do
      let g ← g.read token
      g.readAll (r.drop n)) := by
  unfold readAll Token.scan Token.segments
  rw [segment_cons, h]
  simp

/-! ### Text -/

theorem readAll_entity {c d : Char} {r : Text} (hc : isAsciiLetter c = true)
    (hr : (c :: r).all Token.isReferenceChar = true)
    (hvalue : ((entity? (c :: r)).map (·.value)).getD ('&' :: c :: r) = [d]) (g : Growth)
    (rest : Text) :
    g.readAll ('&' :: c :: (r ++ ';' :: rest)) = (g.write [d]).readAll rest := by
  rw [readAll_cons (Token.step_entity hc hr rest)]
  have hdrop : (c :: (r ++ ';' :: rest)).drop (r.length + 2) = rest := by
    show (r ++ ';' :: rest).drop (r.length + 1) = rest
    rw [← List.drop_drop, List.drop_left]
    rfl
  rw [hdrop, read, hvalue, pure_bind]

theorem characterOf_of_not_western {n : Nat}
    (h : westernBytes.find? (fun b => b.1 == n) = none) :
    characterOf n = [if n != 0 && n.isValidChar then Char.ofNat n else replacementChar] := by
  unfold characterOf
  rw [h]

theorem characterOf_apostrophe : characterOf (digitsValue ['0', '3', '9']) = ['\''] := by
  have hdigits : digitsValue ['0', '3', '9'] = 39 := by decide +kernel
  have hwestern : westernBytes.find? (fun b => b.1 == 39) = none := by
    -- The table is written as a string, of which only the characters are of interest.
    unfold westernBytes readRanges readNumbers
    rw [String.toList_ofList]
    decide +kernel
  rw [hdigits, characterOf_of_not_western hwestern]
  decide +kernel

theorem readAll_apostrophe (g : Growth) (rest : Text) :
    g.readAll ("&#039;".toList ++ rest) = (g.write ['\'']).readAll rest := by
  rw [String.toList_ofList]
  have hstep : Token.step (.content false) '&' ('#' :: '0' :: '3' :: '9' :: ';' :: rest) =
      ⟨5, .number ['0', '3', '9'] false, .content false⟩ := rfl
  show g.readAll ('&' :: '#' :: '0' :: '3' :: '9' :: ';' :: rest) = _
  rw [readAll_cons hstep]
  simp [read, maxReferenceDigits, characterOf_apostrophe]

/-- A character that is written as a reference. -/
theorem readAll_escapeChar {c : Char} (hc : escapeChar c ≠ [c]) (g : Growth) (rest : Text) :
    g.readAll (escapeChar c ++ rest) = (g.write [c]).readAll rest := by
  unfold escapeChar at hc ⊢
  split
  · rw [String.toList_ofList]
    exact readAll_entity (r := ['m', 'p']) (by decide) (by decide) (by decide +kernel) g rest
  · rw [String.toList_ofList]
    exact readAll_entity (r := ['t']) (by decide) (by decide) (by decide +kernel) g rest
  · rw [String.toList_ofList]
    exact readAll_entity (r := ['t']) (by decide) (by decide) (by decide +kernel) g rest
  · rw [String.toList_ofList]
    exact readAll_entity (r := ['u', 'o', 't']) (by decide) (by decide) (by decide +kernel) g rest
  · exact readAll_apostrophe g rest
  · simp at hc

/-- What follows a text: a tag or the end of the input. -/
def EndsText (rest : Text) : Prop :=
  rest.head?.all (· = '<') = true

/-- A character that is written as it is. -/
def isOrdinary (c : Char) : Bool :=
  escapeChar c = [c]

theorem isOrdinary_iff {c : Char} : isOrdinary c = true ↔ escapeChar c = [c] :=
  decide_eq_true_iff

theorem ne_of_isOrdinary {c : Char} (hc : isOrdinary c = true) : c ≠ '<' ∧ c ≠ '&' := by
  constructor <;> rintro rfl <;> cases hc

/-- The reader of text goes as far as characters are written as they are. -/
theorem takeWhile_escape {rest : Text} (hrest : EndsText rest) (t : Text) :
    (escape t ++ rest).takeWhile (fun d => d ≠ '<' && d ≠ '&') = t.takeWhile isOrdinary := by
  induction t with
  | nil =>
    cases rest with
    | nil => rfl
    | cons d r =>
      obtain rfl : d = '<' := by simpa [EndsText] using hrest
      rfl
  | cons c t ih =>
    cases hc : isOrdinary c with
    | true =>
      have hwritten := isOrdinary_iff.mp hc
      obtain ⟨hlt, hamp⟩ := ne_of_isOrdinary hc
      rw [escape_cons, hwritten, List.append_assoc, List.singleton_append,
        List.takeWhile_cons_of_pos (by simp [hlt, hamp]), ih, List.takeWhile_cons_of_pos hc]
    | false =>
      obtain ⟨r, hwritten⟩ : ∃ r, escapeChar c = '&' :: r := (escapeChar_eq_or c).resolve_left
        fun h => by rw [isOrdinary_iff.mpr h] at hc; cases hc
      rw [escape_cons, hwritten, List.append_assoc, List.cons_append,
        List.takeWhile_cons_of_neg (by decide), List.takeWhile_cons_of_neg (by simp [hc])]

theorem escape_takeWhile (t : Text) : escape (t.takeWhile isOrdinary) = t.takeWhile isOrdinary :=
  flatMap_eq_self fun _ hc => isOrdinary_iff.mp (of_mem_takeWhile hc)

/-- A written text is read as some pieces of it. -/
theorem exists_readAll_escape {rest : Text} (hrest : EndsText rest) (t : Text) :
    ∃ pieces : List Text, pieces.reverse.flatten = t ∧
      ∀ g : Growth, g.readAll (escape t ++ rest) =
        { g with pending := pieces ++ g.pending }.readAll rest := by
  induction hn : t.length using Nat.strongRecOn generalizing t with
  | ind n ih =>
    cases t with
    | nil => exact ⟨[], rfl, fun _ => rfl⟩
    | cons c t =>
      simp only [List.length_cons] at hn
      cases hc : isOrdinary c with
      | false =>
        obtain ⟨pieces, hpieces, hread⟩ := ih _ (by omega) t rfl
        refine ⟨pieces ++ [[c]], by simp [hpieces], fun g => ?_⟩
        have hwritten : escapeChar c ≠ [c] := fun h => by
          rw [isOrdinary_iff.mpr h] at hc
          cases hc
        rw [escape_cons, List.append_assoc, readAll_escapeChar hwritten, hread]
        simp [write]
      | true =>
        have hwritten := isOrdinary_iff.mp hc
        obtain ⟨hlt, hamp⟩ := ne_of_isOrdinary hc
        have hsplit := List.takeWhile_append_dropWhile (p := isOrdinary) (l := t)
        have hescape : escape t ++ rest =
            t.takeWhile isOrdinary ++ (escape (t.dropWhile isOrdinary) ++ rest) := by
          rw [← escape_takeWhile, ← List.append_assoc, ← escape_append, hsplit]
        have hshort := List.length_dropWhile_le isOrdinary t
        obtain ⟨pieces, hpieces, hread⟩ := ih _ (by omega) (t.dropWhile isOrdinary) rfl
        refine ⟨pieces ++ [c :: t.takeWhile isOrdinary], by simp [hpieces], fun g => ?_⟩
        rw [escape_cons, hwritten, List.append_assoc, List.singleton_append,
          readAll_cons (Token.step_of_ne hlt hamp _), takeWhile_escape hrest, hescape, List.drop_left,
          read, pure_bind, hread]
        simp [write]

/-! ### Trees -/

theorem pending_add (g : Growth) (n : Node) : (g.add n).pending = g.pending := by
  unfold add
  split <;> rfl

theorem pending_flush (g : Growth) : g.flush.pending = [] := by
  unfold flush
  split
  · next h => exact List.isEmpty_iff.mp h
  · exact pending_add _ _

theorem closed_flush (g : Growth) : g.flush.closed = g.closed := by
  unfold flush add
  split
  · rfl
  · split <;> rfl

theorem flush_of_pending {g : Growth} (h : g.pending = []) : g.flush = g := by
  simp [flush, h]

/-- A tree in which ordinary text is read, preformatted or not, and in which every end tag counts. -/
structure IsReady (pre : Bool) (g : Growth) : Prop where
  /-- No end tag is void. -/
  closed : g.closed = []
  /-- The open elements have ordinary text. -/
  plain : ∀ e ∈ g.opened, e.tag.textKind? = none
  /-- Whether one of them is preformatted. -/
  preformatted : (g.opened.any fun e => e.tag.isPreformatted) = pre

variable {pre : Bool} {g : Growth}

theorem IsReady.add (h : g.IsReady pre) (n : Node) : (g.add n).IsReady pre := by
  obtain ⟨closed, plain, preformatted⟩ := h
  unfold Growth.add
  split
  · exact ⟨closed, plain, preformatted⟩
  · next e r hopened =>
    rw [hopened] at plain preformatted
    refine ⟨closed, ?_, preformatted⟩
    intro d hd
    rcases List.mem_cons.mp hd with rfl | hd
    · exact plain e List.mem_cons_self
    · exact plain d (List.mem_cons_of_mem e hd)

theorem IsReady.flush (h : g.IsReady pre) : g.flush.IsReady pre := by
  unfold Growth.flush
  split
  · exact h
  · have hready : IsReady pre { g with pending := [] } := ⟨h.closed, h.plain, h.preformatted⟩
    exact hready.add _

theorem IsReady.enter (h : g.IsReady pre) {tag : Tag} (htag : tag.textKind? = none) :
    (g.enter tag).IsReady (pre || tag.isPreformatted) := by
  obtain ⟨closed, plain, preformatted⟩ := h.flush
  refine ⟨closed, List.forall_mem_cons.mpr ⟨htag, plain⟩, ?_⟩
  rw [Growth.enter, List.any_cons, preformatted, Bool.or_comm]

theorem IsReady.textKind (h : g.IsReady pre) : g.textKind = .plain := by
  rw [Growth.textKind, List.findSome?_eq_none_iff.mpr h.plain]
  rfl

theorem IsReady.shrink (h : g.IsReady pre) {t : Text}
    (ht : (pre || Growth.empty.shrink t = t) = true) : g.shrink t = t := by
  have hpre : (g.opened.any fun e => e.tag.isOneOf ["pre", "textarea"]) = pre := h.preformatted
  unfold Growth.shrink at ht ⊢
  rw [hpre]
  cases pre with
  | true => rfl
  | false => exact of_decide_eq_true ht

/-- Pending text becomes a node. -/
theorem IsReady.flush_text (h : g.IsReady pre) {pieces : List Text} (hne : pieces ≠ [])
    (ht : (pre || Growth.empty.shrink pieces.reverse.flatten = pieces.reverse.flatten) = true) :
    Growth.flush { g with pending := pieces } =
      Growth.add { g with pending := [] } (.text .plain pieces.reverse.flatten) := by
  have hready : IsReady pre { g with pending := pieces } := ⟨h.closed, h.plain, h.preformatted⟩
  unfold Growth.flush
  rw [if_neg (by simpa using hne), hready.textKind, hready.shrink ht]

theorem foldl_add_opened (e : OpenElement) (r : List OpenElement) (ns : List Node) (g : Growth) :
    ns.foldl Growth.add { g with opened := e :: r } =
      { g with opened := { e with children := ns.reverse ++ e.children } :: r } := by
  induction ns generalizing e with
  | nil => rfl
  | cons n ns ih =>
    rw [List.foldl_cons]
    refine (ih { e with children := n :: e.children }).trans ?_
    simp

/-- An end tag closes the innermost element. -/
theorem leave_of_flush {before : Growth} {tag : Tag} {children : List Node}
    (h : g.flush = { before with opened := ⟨tag, children⟩ :: before.opened }) :
    g.leave tag.name = before.add (.element tag children.reverse) := by
  unfold leave Growth.add
  simp only [h, List.any_cons, beq_self_eq_true, Bool.true_or, if_true, closeThrough,
    OpenElement.close, List.nil_append]
  cases before.opened <;> rfl

/-! ### Tags -/

theorem foldl_distinct {attributes : List (Text × Text)} (known : List (Text × Text))
    (h : ((known ++ attributes).map (·.1)).Nodup) :
    attributes.foldl (fun known a => known.filter (fun k => k.1 ≠ a.1) ++ [a]) known =
      known ++ attributes := by
  induction attributes generalizing known with
  | nil => simp
  | cons a r ih =>
    have hknown : known.filter (fun k => k.1 ≠ a.1) = known := by
      rw [List.filter_eq_self]
      intro k hk
      rw [List.map_append, List.map_cons, List.nodup_append] at h
      simpa using h.2.2 k.1 (List.mem_map_of_mem hk) a.1 List.mem_cons_self
    rw [List.foldl_cons, hknown, ih (known ++ [a]) (by simpa using h)]
    simp

/-- The attributes of a written tag are read back. -/
theorem resolve_written {tag : Tag} (h : tag.isWritten = true) (closed : Bool) :
    StartTag.resolve ⟨tag.name, tag.attributes.map (fun a => (a.1, escape a.2)), closed⟩ =
      pure tag := by
  simp only [Tag.isWritten, Bool.and_eq_true, decide_eq_true_eq] at h
  have hvalues : (tag.attributes.map fun a => (a.1, escape a.2)).mapM
      (fun a => do pure (a.1, ← unescape a.2)) = (pure tag.attributes : Report _) := by
    induction tag.attributes with
    | nil => rfl
    | cons a r ih =>
      rw [List.map_cons, List.mapM_cons, ih]
      simp [unescape_escape]
  have hdistinct := foldl_distinct [] h.2
  rw [StartTag.resolve, hvalues, pure_bind, hdistinct]
  rfl

theorem readAll_startText {tag : Tag} (h : tag.isWritten = true) (g : Growth) (rest : Text) :
    g.readAll (tag.startText ++ rest) = (g.startTag tag tag.isEmptyElement).readAll rest := by
  rw [Tag.startText, List.cons_append, List.append_assoc,
    readAll_cons (Token.step_startText tag.isEmptyElement h rest), ← List.append_assoc,
    List.drop_left, read, resolve_written h]
  rfl

theorem readAll_endText {tag : Tag} (h : tag.isWritten = true) (g : Growth) (rest : Text) :
    g.readAll (tag.endText ++ rest) = (g.endTag tag.name).readAll rest := by
  simp only [Tag.isWritten, Bool.and_eq_true] at h
  have hdrop : ('/' :: (tag.name ++ '>' :: rest)).drop (tag.name.length + 2) = rest := by
    show (tag.name ++ '>' :: rest).drop (tag.name.length + 1) = rest
    rw [← List.drop_drop, List.drop_left]
    rfl
  have hsplit : tag.endText ++ rest = '<' :: '/' :: (tag.name ++ '>' :: rest) := by
    simp [Tag.endText]
  rw [hsplit, readAll_cons (Token.step_endText h.1.1.1 rest), hdrop, read, pure_bind]

/-- A tag of an element without content adds the element. -/
theorem startTag_closed (g : Growth) (tag : Tag) :
    g.startTag tag true = g.flush.add (.element tag []) := by
  have hflush : (g.enter tag).flush =
      { g.flush with opened := ⟨tag, []⟩ :: g.flush.opened } :=
    flush_of_pending (pending_flush g)
  exact leave_of_flush hflush

theorem startTag_opened (g : Growth) {tag : Tag} (h : tag.isEmptyElement = false) :
    g.startTag tag false = g.enter tag := by
  have hname : tag.name ∉ emptyElements := by simpa [Tag.isEmptyElement] using h
  simp [startTag, hname]

theorem endsText_writes {ns : List Node} {rest : Text} (hstart : Node.beginWithText ns = false)
    (hrest : EndsText rest) : EndsText (Node.writes ns ++ rest) := by
  match ns, hstart with
  | [], _ => exact hrest
  | .element tag children :: r, _ =>
    rw [Node.writes, Node.write]
    split <;> rfl

mutual

/-- A written element adds one node. -/
theorem readAll_element {pre : Bool} (tag : Tag) (children : List Node)
    (h : (Node.element tag children).isWritten pre = true) {g : Growth} (hready : g.IsReady pre)
    (rest : Text) :
    g.readAll ((Node.element tag children).write ++ rest) =
      (g.flush.add (.element tag children)).readAll rest := by
  simp only [Node.isWritten, Bool.and_eq_true] at h
  obtain ⟨⟨htag, hempty⟩, hchildren⟩ := h
  rw [Node.write]
  cases hbare : tag.isEmptyElement with
  | true =>
    obtain rfl : children = [] := by simpa [hbare] using hempty
    rw [if_pos rfl, readAll_startText htag, hbare, startTag_closed]
  | false =>
    have hkind : tag.textKind? = none := by
      simp only [Tag.isWritten, Bool.and_eq_true, Option.isNone_iff_eq_none] at htag
      exact htag.1.1.2
    obtain ⟨g', hread, hflush⟩ := exists_readAll_writes children hchildren (hready.enter hkind)
      (.inl (pending_flush g)) (tag.endText ++ rest) rfl
    have hinner : g'.flush =
        { g.flush with opened := ⟨tag, children.reverse⟩ :: g.flush.opened } := by
      rw [hflush, flush_of_pending (g := g.enter tag) (pending_flush g)]
      simpa [enter] using foldl_add_opened ⟨tag, []⟩ g.flush.opened children g.flush
    have hclosed : g'.closed = [] := by
      rw [← closed_flush, hinner]
      exact hready.flush.closed
    have hleave := leave_of_flush hinner
    rw [List.reverse_reverse] at hleave
    rw [if_neg (by simp), List.append_assoc, List.append_assoc, readAll_startText htag, hbare,
      startTag_opened g hbare, hread, readAll_endText htag, endTag, hclosed, ← hleave]
    rfl

/-- Written nodes add themselves; a text at their end may still be pending. -/
theorem exists_readAll_writes {pre : Bool} (ns : List Node) (h : Node.areWritten pre ns = true)
    {g : Growth} (hready : g.IsReady pre)
    (hstart : g.pending = [] ∨ Node.beginWithText ns = false) (rest : Text)
    (hrest : EndsText rest) :
    ∃ g' : Growth, g.readAll (Node.writes ns ++ rest) = g'.readAll rest ∧
      g'.flush = ns.foldl Growth.add g.flush := by
  match ns with
  | [] => exact ⟨g, rfl, rfl⟩
  | .text kind t :: r =>
    rw [Node.areWritten, Bool.and_eq_true, Bool.and_eq_true, Node.isWritten, Bool.and_eq_true,
      Bool.and_eq_true] at h
    obtain ⟨⟨⟨⟨hkind, hne⟩, hshrink⟩, hnext⟩, hr⟩ := h
    obtain rfl : kind = .plain := of_decide_eq_true hkind
    replace hnext : Node.beginWithText r = false := by simpa [Node.beginWithText] using hnext
    have hpending : g.pending = [] := hstart.resolve_right (by simp [Node.beginWithText])
    obtain ⟨pieces, rfl, hread⟩ := exists_readAll_escape (endsText_writes hnext hrest) t
    have hpieces : pieces ≠ [] := by
      rintro rfl
      cases hne
    have hready' : IsReady pre { g with pending := pieces } :=
      ⟨hready.closed, hready.plain, hready.preformatted⟩
    obtain ⟨g', hrest', hflush⟩ := exists_readAll_writes r hr hready' (.inr hnext) rest hrest
    refine ⟨g', ?_, ?_⟩
    · rw [Node.writes, Node.write, List.append_assoc, hread, hpending, List.append_nil, hrest']
    · rw [hflush, hready.flush_text hpieces hshrink, List.foldl_cons, flush_of_pending hpending,
        ← hpending]
  | .element tag children :: r =>
    rw [Node.areWritten, Bool.and_eq_true, Bool.and_eq_true] at h
    have helement := readAll_element tag children h.1.1 hready (Node.writes r ++ rest)
    have hpending : (g.flush.add (.element tag children)).pending = [] := by
      rw [pending_add, pending_flush]
    obtain ⟨g', hrest', hflush⟩ :=
      exists_readAll_writes r h.2 (hready.flush.add _) (.inl hpending) rest hrest
    refine ⟨g', ?_, ?_⟩
    · rw [Node.writes, List.append_assoc, helement, hrest']
    · rw [hflush, flush_of_pending hpending, List.foldl_cons]

end

theorem foldl_add_outside (ns outside : List Node) :
    ns.foldl Growth.add ⟨outside, [], [], []⟩ = ⟨ns.reverse ++ outside, [], [], []⟩ := by
  induction ns generalizing outside with
  | nil => rfl
  | cons n ns ih =>
    refine (ih (n :: outside)).trans ?_
    simp

end Growth

/-- **A written tree is read back.** -/
theorem parse_writes {ns : List Node} (h : Node.areWritten false ns = true) :
    parse (Node.writes ns) = pure ns := by
  have hready : Growth.empty.IsReady false := ⟨rfl, by simp [Growth.empty], rfl⟩
  obtain ⟨g, hread, hflush⟩ :=
    Growth.exists_readAll_writes ns h hready (.inl rfl) [] rfl
  have hflush' : g.flush = ⟨ns.reverse, [], [], []⟩ := by
    rw [hflush]
    exact (Growth.foldl_add_outside ns []).trans (by simp)
  have hfinish : g.finish = ns := by
    simp [Growth.finish, hflush']
  show Growth.empty.readAll (Node.writes ns) = pure ns
  rw [← List.append_nil (Node.writes ns), hread, Growth.readAll_nil, hfinish]

end Markdown.Html
