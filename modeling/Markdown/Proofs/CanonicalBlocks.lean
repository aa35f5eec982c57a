import Markdown.Proofs.CanonicalListing
import Markdown.Proofs.Tiling

/-!
# Splitting canonical documents

The lines of canonical blocks are split into these blocks again. Each kind of block has a lemma about
the match at its first line; what a list or a definition list needs to know about the lines behind it
is that it ends there, and `standsApart` provides this.
-/

namespace Markdown.Canonical

open Text Document

variable {t : Text} {c : Char}

/-! ### Matches -/

theorem matchAt_of_first {structured : Bool} {number : Nat} {line : Text} {rest : List Text}
    {m : Match} (h : Shape.firstMatch Shape.beforeQuote number line rest = some m) :
    matchAt structured number line rest = m := by
  rw [matchAt, findSome?_priority, h]
  rfl

theorem matchAt_of_quote {structured : Bool} {number : Nat} {line text : Text} {rest : List Text}
    (hfirst : Shape.firstMatch Shape.beforeQuote number line rest = none)
    (h : Quote.strip? line = some text) :
    matchAt structured number line rest =
      ⟨.quote (unlines (text :: Quote.body rest))
          (blocks structured (text :: Quote.body rest)).value,
        (Quote.body rest).length, (blocks structured (text :: Quote.body rest)).notes⟩ := by
  rw [matchAt, findSome?_priority, hfirst, recognise, h]
  rfl

theorem matchAt_of_later {structured : Bool} {number : Nat} {line : Text} {rest : List Text}
    (hfirst : Shape.firstMatch Shape.beforeQuote number line rest = none)
    (hquote : Quote.strip? line = none) :
    matchAt structured number line rest =
      (Shape.firstMatch (Shape.afterQuote structured) number line rest).getD
        (Paragraph.startingAt number line rest) := by
  rw [matchAt, findSome?_priority, hfirst, recognise, hquote]
  rfl

/-- Splitting goes on behind a match that noted nothing. -/
theorem blocksFrom_of_matchAt {structured : Bool} {number extra : Nat} {line : Text}
    {rest : List Text} {b : Block} {bs : List Block} (hline : allBlank line = false)
    (hmatch : matchAt structured number line rest = ⟨b, extra, []⟩)
    (hrest : ∀ k, blocksFrom structured k (rest.drop extra) = pure bs) :
    blocksFrom structured number (line :: rest) = pure (b :: bs) := by
  rw [blocksFrom_cons structured number rest hline, hmatch]
  simp only [hrest, Match.report, pure_bind]
  rfl

/-! ### Lines that are told by their first character -/

theorem isFence_cons (r : Text) (hc : isBlank c = false) (hfence : c ≠ '\x60') :
    Line.isFence (c :: r) = false := by
  have hne : (Char.ofNat 0x60 == c) = false := beq_eq_false_iff_ne.mpr hfence.symm
  rw [Line.isFence, trimStart_cons hc, startsWith, List.replicate_succ, List.isPrefixOf_cons_cons, hne]
  rfl

theorem hashes?_cons (r : Text) (hhash : c ≠ '#') : Line.hashes? (c :: r) = none := by
  simp [Line.hashes?, hhash]

theorem isRule_cons (r : Text) (hc : isBlank c = false) (h : c ≠ '-' ∧ c ≠ '*' ∧ c ≠ '_') :
    Line.isRule (c :: r) = false := by
  obtain ⟨s, hs⟩ := trim_cons hc r
  simp [Line.isRule, hs, h]

theorem strip?_cons (r : Text) (hc : isBlank c = false) (h : c ≠ '>') :
    Quote.strip? (c :: r) = none := by
  rw [Quote.strip?, trimStart_cons hc]
  split
  · next heq => exact absurd (List.cons.inj heq).1 h
  · next heq => exact absurd (List.cons.inj heq).1 h
  · rfl

theorem marker?_cons (r : Text) (hc : isBlank c = false) (hdigit : isDigit c = false)
    (h : c ≠ '-' ∧ c ≠ '*' ∧ c ≠ '+') : Line.marker? (c :: r) = none := by
  simp [Line.marker?, trimStart_cons hc, hdigit, h]

theorem unindent?_cons (r : Text) (hc : isBlank c = false) : Fence.unindent? (c :: r) = none := by
  unfold Fence.unindent?
  split
  · next heq =>
    obtain ⟨rfl, -⟩ := List.cons.inj heq
    cases hc
  · next heq =>
    obtain ⟨rfl, -⟩ := List.cons.inj heq
    cases hc
  · rfl

/-- Whether a character begins a line that no recogniser before the quotes looks at. -/
def isQuiet (c : Char) : Bool :=
  !isBlank c && c ≠ '\x60' && c ≠ '#' && c ≠ '-' && c ≠ '*' && c ≠ '_'

/-- No recogniser before the quotes looks at a line that begins with a quiet character, if the next
line does not underline it. -/
theorem firstMatch_beforeQuote {number : Nat} {r : Text} {rest : List Text}
    (hc : isQuiet c = true)
    (hunder : Heading.recogniseUnderlined number (c :: r) rest = none) :
    Shape.firstMatch Shape.beforeQuote number (c :: r) rest = none := by
  simp only [isQuiet, Bool.and_eq_true, Bool.not_eq_true', decide_eq_true_eq] at hc
  obtain ⟨⟨⟨⟨⟨hblank, hfence⟩, hhash⟩, hdash⟩, hstar⟩, hscore⟩ := hc
  simp [Shape.firstMatch, Shape.beforeQuote, Shape.recogniser, Fence.recognise,
    isFence_cons r hblank hfence, Heading.recognise, hashes?_cons r hhash, hunder,
    Heading.recogniseRule, isRule_cons r hblank ⟨hdash, hstar, hscore⟩]

theorem recognise_table_eq_none (number : Nat) {line : Text} (rest : List Text) (h : '|' ∉ line) :
    Table.recognise number line rest = none := by
  rw [Table.recognise.eq_def]
  split
  · rfl
  · rw [if_neg h]

/-- A line is not underlined by a line that does not begin like an underline. -/
theorem recogniseUnderlined_eq_none {n : Nat} {line : Text} {rest : List Text}
    (h : ∀ next ∈ rest.head?, Heading.underlineLevel? next = none) :
    Heading.recogniseUnderlined n line rest = none := by
  cases rest with
  | nil => rfl
  | cons next rest => simp [Heading.recogniseUnderlined, h next rfl]

/-! ### What stands behind a block -/

/-- Nothing, or an empty line and more. -/
def IsGap (tail : List Text) : Prop :=
  tail = [] ∨ ∃ rest, tail = [] :: rest

theorem IsGap.underlineLevel? {tail : List Text} (h : IsGap tail) :
    ∀ next ∈ tail.head?, Heading.underlineLevel? next = none := by
  rcases h with rfl | ⟨rest, rfl⟩
  · simp
  · simp [Heading.underlineLevel?]

/-- The lines of the blocks behind a block. -/
def gapLines (bs : List Block) : List Text :=
  if bs.isEmpty then [] else [] :: lines bs

theorem lines_cons (b : Block) (r : List Block) : lines (b :: r) = blockLines b ++ gapLines r := by
  cases r <;> simp [lines, gapLines]

theorem isGap_gapLines (bs : List Block) : IsGap (gapLines bs) := by
  cases bs with
  | nil => exact .inl rfl
  | cons b r => exact .inr ⟨lines (b :: r), rfl⟩

/-! ### Headings, rules and paragraphs -/

/-- The content of a heading behind hashes is trimmed. -/
theorem firstMatch_hashes (number : Nat) (rest : List Text) {level : Int} (hlow : 1 ≤ level)
    (hhigh : level ≤ 6) {r : Text} (hc : isBlank c = false) (hline : '\n' ∉ c :: r) :
    Shape.firstMatch Shape.beforeQuote number (List.replicate level.toNat '#' ++ ' ' :: c :: r) rest =
      some ⟨.heading level (trim (c :: r)), 0, []⟩ := by
  obtain ⟨n, hn⟩ : ∃ n, level.toNat = n + 1 := ⟨level.toNat - 1, by omega⟩
  have hfence : Line.isFence (List.replicate (n + 1) '#' ++ ' ' :: c :: r) = false :=
    isFence_cons _ (by decide) (by decide)
  have hhashes : Line.hashes? (List.replicate (n + 1) '#' ++ ' ' :: c :: r) =
      some (n + 1, ' ' :: c :: r) := by
    have hle : n + 1 ≤ 6 := by omega
    have hspace : isBlank ' ' = true := by decide
    simp [Line.hashes?, hle, hspace]
  have htrim : trimStart (' ' :: c :: r) = c :: r := trimStart_cons hc r
  have hbody : Line.body? (c :: r) = some (c :: r) := body?_eq_some hline
  have hempty : (trim (c :: r)).isEmpty = false := by
    obtain ⟨s, hs⟩ := trim_cons hc r
    rw [hs]
    rfl
  have hlevel : ((n + 1 : Nat) : Int) = level := by omega
  simp only [hn, Shape.firstMatch, Shape.beforeQuote, List.findSome?_cons, Shape.recogniser,
    Fence.recognise, hfence, Heading.recognise, hhashes, htrim, hbody, hempty, hlevel]
  rfl

theorem firstMatch_heading (number : Nat) (rest : List Text) {level : Int} (hlow : 1 ≤ level)
    (hhigh : level ≤ 6) (h : isPlain t = true) :
    Shape.firstMatch Shape.beforeQuote number (List.replicate level.toNat '#' ++ ' ' :: t) rest =
      some ⟨.heading level t, 0, []⟩ := by
  have hline : '\n' ∉ t := not_mem_of_isPlain h (by decide)
  have htrim := trim_of_isPlain h
  obtain ⟨c, r, rfl, hc⟩ := exists_cons_of_isPlain h
  rw [firstMatch_hashes number rest hlow hhigh (isBlank_of_isAsciiLetter hc) hline, htrim]

theorem firstMatch_rule (number : Nat) (rest : List Text) :
    Shape.firstMatch Shape.beforeQuote number "---".toList rest = some ⟨.rule, 0, []⟩ := by
  have hrule : Line.isRule "---".toList = true := by decide
  have hunder : Heading.recogniseUnderlined number "---".toList rest = none := by
    cases rest with
    | nil => rfl
    | cons next rest => rw [Heading.recogniseUnderlined, hrule, Bool.or_true, if_pos rfl]
  have hfence : Line.isFence "---".toList = false := by decide
  have hhashes : Line.hashes? "---".toList = none := by decide
  simp only [Shape.firstMatch, Shape.beforeQuote, List.findSome?_cons, Shape.recogniser,
    Fence.recognise, hfence, Heading.recognise, hhashes, hunder, Heading.recogniseRule, hrule]
  rfl

theorem isQuiet_of_isTextChar (h : isTextChar c = true) (hblank : isBlank c = false) :
    isQuiet c = true := by
  simp only [isQuiet, hblank, Bool.not_false, Bool.true_and, Bool.and_eq_true, decide_eq_true_eq]
  exact ⟨⟨⟨⟨ne_of_class h rfl, ne_of_class h rfl⟩, ne_of_class h rfl⟩, ne_of_class h rfl⟩,
    ne_of_class h rfl⟩

/-- The first character of a plain text, and what the recognisers ask of it. -/
theorem exists_quiet_of_isPlain (h : isPlain t = true) :
    ∃ c r, t = c :: r ∧ isAsciiLetter c = true ∧ isBlank c = false ∧ isQuiet c = true := by
  obtain ⟨c, r, rfl, hc⟩ := exists_cons_of_isPlain h
  have hblank := isBlank_of_isAsciiLetter hc
  exact ⟨c, r, rfl, hc, hblank, isQuiet_of_isTextChar (by simp [isTextChar, hc]) hblank⟩

/-- Without a colon a line begins no mapping. -/
theorem isYamlStart_of_letter {r : Text} (hc : isAsciiLetter c = true) (hcolon : ':' ∉ r) :
    Data.isYamlStart (c :: r) = false := by
  have hrest : ∀ tail, (r.dropWhile fun d => isWord d || isBlank d) ≠ ':' :: tail := by
    intro tail heq
    exact hcolon ((List.dropWhile_sublist _).mem (heq ▸ List.mem_cons_self))
  have hdash : ∀ s, c :: r ≠ '-' :: s := fun s heq => ne_of_class hc rfl (List.cons.inj heq).1
  unfold Data.isYamlStart
  split
  · next heq => exact absurd heq (hdash _)
  · simp only [trimStart_cons (isBlank_of_isAsciiLetter hc)]
    exact Bool.and_false (isWord c)

/-- A line in front of a gap is a paragraph, if it begins with a letter and has neither a pipe nor a
colon. -/
theorem matchAt_of_letter (structured : Bool) (number : Nat) {r : Text} {tail : List Text}
    (htail : IsGap tail) (hc : isAsciiLetter c = true) (hpipe : '|' ∉ r) (hcolon : ':' ∉ r) :
    matchAt structured number (c :: r) tail = ⟨.paragraph (c :: r), (tail.take 1).length, []⟩ := by
  have hblank := isBlank_of_isAsciiLetter hc
  have hquiet : isQuiet c = true := isQuiet_of_isTextChar (by simp [isTextChar, hc]) hblank
  have hfirst : Shape.firstMatch Shape.beforeQuote number (c :: r) tail = none :=
    firstMatch_beforeQuote hquiet (recogniseUnderlined_eq_none htail.underlineLevel?)
  have hmarker : Line.marker? (c :: r) = none :=
    marker?_cons r hblank (isDigit_of_isAsciiLetter hc)
      ⟨ne_of_class hc rfl, ne_of_class hc rfl, ne_of_class hc rfl⟩
  have htable : Table.recognise number (c :: r) tail = none :=
    recognise_table_eq_none number tail
      (List.not_mem_cons_of_ne_of_not_mem (ne_of_class hc rfl).symm hpipe)
  have hglossary : Glossary.recognise number (c :: r) tail = none := by
    rw [Glossary.recognise, if_neg]
    rcases htail with rfl | ⟨rest, rfl⟩ <;> simp [Glossary.startsEntry, Glossary.meaning?]
  have hindented : Fence.recogniseIndented number (c :: r) tail = none := by
    rw [Fence.recogniseIndented, unindent?_cons r hblank]
  have hjson : Data.recogniseJson number (c :: r) tail = none := by
    simp [Data.recogniseJson, trimStart_cons hblank, ne_of_class hc (d := '\x7b') rfl,
      ne_of_class hc (d := '[') rfl]
  have hlater : Shape.firstMatch (Shape.afterQuote structured) number (c :: r) tail = none := by
    cases structured <;>
      simp [Shape.firstMatch, Shape.afterQuote, Shape.recogniser, htable, hglossary,
        Listing.recognise, Listing.recogniseFrom, hmarker, hindented, hjson, Data.recogniseYaml,
        isYamlStart_of_letter hc hcolon]
  rw [matchAt_of_later hfirst (strip?_cons r hblank (ne_of_class hc rfl)), hlater]
  rcases htail with rfl | ⟨rest, rfl⟩
  · simp [Paragraph.startingAt, Paragraph.continuation, unlines]
  · simp [Paragraph.startingAt, Paragraph.continuation, unlines, allBlank]

theorem matchAt_paragraph (structured : Bool) (number : Nat) {tail : List Text}
    (htail : IsGap tail) (h : isPlain t = true) :
    matchAt structured number t tail =
      ⟨.paragraph t, (tail.take 1).length, []⟩ := by
  have hpipe : '|' ∉ t := not_mem_of_isPlain h (by decide)
  have hcolon : ':' ∉ t := not_mem_of_isPlain h (by decide)
  obtain ⟨c, r, rfl, hc⟩ := exists_cons_of_isPlain h
  exact matchAt_of_letter structured number htail hc (List.not_mem_of_not_mem_cons hpipe)
    (List.not_mem_of_not_mem_cons hcolon)

/-! ### Code -/

theorem isFence_of_isCodeLine {line : Text} (h : isCodeLine line = true) :
    Line.isFence line = false := by
  simp only [isCodeLine, Bool.and_eq_true, Bool.not_eq_true'] at h
  exact h.2

theorem firstMatch_code (number : Nat) {language : Text} {ls : List Text} (tail : List Text)
    (hlanguage : ∀ c ∈ language, isBlank c = false) (h : ∀ l ∈ ls, Line.isFence l = false) :
    Shape.firstMatch Shape.beforeQuote number (fence ++ language) (ls ++ fence :: tail) =
      some ⟨.code language (unlines ls) false, ls.length + 1, []⟩ := by
  have hopening : Line.isFence (fence ++ language) = true := rfl
  have hname : trim ((trimStart (fence ++ language)).drop 3) = language := trim_word hlanguage
  have hclosing : Line.isFence fence = true := rfl
  have hbody : (ls ++ fence :: tail).takeWhile (fun l => !Line.isFence l) = ls := by
    rw [List.takeWhile_append_of_pos fun l hl => by simp [h l hl]]
    simp [hclosing]
  have hmatch : Fence.recognise number (fence ++ language) (ls ++ fence :: tail) =
      some ⟨.code language (unlines ls) false, ls.length + 1, []⟩ := by
    rw [Fence.recognise, if_pos hopening, hname, hbody]
    simp
  simp only [Shape.firstMatch, Shape.beforeQuote, List.findSome?_cons, Shape.recogniser, hmatch]

/-! ### Tables -/

/-- A text that can stand in a cell of a row. -/
structure IsCell (t : Text) : Prop where
  /-- It begins with a character that is not blank. -/
  first : t.head?.any (!isBlank ·) = true
  /-- It ends with a character that is not blank. -/
  last : t.getLast?.any (!isBlank ·) = true
  /-- It has no pipe. -/
  pipe : '|' ∉ t
  /-- It has no backslash. -/
  backslash : '\\' ∉ t

theorem isCell_of_isPlain (h : isPlain t = true) : IsCell t := by
  have hpipe := not_mem_of_isPlain (c := '|') h (by decide)
  have hbackslash := not_mem_of_isPlain (c := '\\') h (by decide)
  have hlast := visible_getLast_of_isPlain h
  obtain ⟨c, r, rfl, hc⟩ := exists_cons_of_isPlain h
  exact ⟨by simp [isBlank_of_isAsciiLetter hc], hlast, hpipe, hbackslash⟩

theorem isCell_separator (a : Option Alignment) : IsCell (FromHtml.separator a) := by
  rcases a with _ | _ | _ | _ <;> exact ⟨rfl, rfl, by decide, by decide⟩

/-- The texts between the pipes of a text, without the blanks around them. -/
def cut (t : Text) : List Text :=
  (t.splitOn '|').map trim

theorem cut_of_not_mem (h : '|' ∉ t) : cut t = [trim t] := by
  rw [cut, List.splitOn_eq_singleton h]
  rfl

theorem cut_append_cons (s r : Text) : cut (s ++ '|' :: r) = cut s ++ cut r := by
  rw [cut, List.splitOn_append_cons_self, List.map_append]
  rfl

/-- A space in front of a text does not matter. -/
theorem cut_cons_space (t : Text) : cut (' ' :: t) = cut t := by
  rw [cut, cut, List.splitOn_cons_eq_if_modifyHead, if_neg (by decide)]
  cases t.splitOn '|' with
  | nil => rfl
  | cons l ls => rfl

/-- A space behind a text does not matter. -/
theorem cut_append_space (t : Text) : cut (t ++ [' ']) = cut t := by
  induction hn : t.length using Nat.strongRecOn generalizing t with
  | ind n ih =>
    by_cases hpipe : '|' ∈ t
    · obtain ⟨s, r, rfl⟩ := List.append_of_mem hpipe
      have hrest := ih r.length (by simp at hn; omega) r rfl
      rw [List.append_assoc, List.cons_append, cut_append_cons, cut_append_cons, hrest]
    · rw [cut_of_not_mem hpipe, cut_of_not_mem (by simp [hpipe]), trim_append_space]

theorem cellsFrom_eq_cut {current : Text} (hcurrent : '|' ∉ current) {t : Text} (h : '\\' ∉ t) :
    Row.cellsFrom current t = cut (current.reverse ++ t) := by
  induction t generalizing current with
  | nil => rw [List.append_nil, Row.cellsFrom, cut_of_not_mem (by simpa using hcurrent)]
  | cons c r ih =>
    have hr : '\\' ∉ r := List.not_mem_of_not_mem_cons h
    by_cases hpipe : c = '|'
    · subst hpipe
      have hfirst : cut current.reverse = [trim current.reverse] :=
        cut_of_not_mem (by simpa using hcurrent)
      rw [Row.cellsFrom, ih List.not_mem_nil hr, cut_append_cons, hfirst]
      rfl
    · have hc : c ≠ '\\' := fun heq => h (heq ▸ List.mem_cons_self)
      have hstep : Row.cellsFrom current (c :: r) = Row.cellsFrom (c :: current) r := by
        rw [Row.cellsFrom]
        · exact fun _ heq _ => hc heq
        · exact fun heq => hpipe heq
      have hmore : '|' ∉ c :: current := List.not_mem_cons_of_ne_of_not_mem (Ne.symm hpipe) hcurrent
      rw [hstep, ih hmore hr, List.reverse_cons, List.append_assoc]
      rfl

theorem cut_intercalate {cells : List Text} (hne : cells ≠ []) :
    cut (' ' :: (" | ".toList.intercalate cells ++ [' '])) = cells.flatMap cut := by
  induction cells with
  | nil => exact absurd rfl hne
  | cons t ts ih =>
    cases ts with
    | nil =>
      rw [List.intercalate_singleton, cut_cons_space, cut_append_space]
      simp
    | cons u ts =>
      have hline : ' ' :: (" | ".toList.intercalate (t :: u :: ts) ++ [' ']) =
          (' ' :: (t ++ [' '])) ++ '|' :: ' ' :: (" | ".toList.intercalate (u :: ts) ++ [' ']) := by
        rw [List.intercalate_cons_cons]
        simp
      have hrest := ih (List.cons_ne_nil u ts)
      rw [hline, cut_append_cons, hrest, cut_cons_space, cut_append_space]
      rfl

/-- The pipes at the two ends of a row are taken away, and what stands between them is cut. -/
theorem cells_pipeRow_eq_cellsFrom (cells : List Text) :
    Row.cells (FromHtml.pipeRow cells) =
      Row.cellsFrom [] (' ' :: (" | ".toList.intercalate cells ++ [' '])) := by
  let inner : Text := ' ' :: (" | ".toList.intercalate cells ++ [' '])
  have hrow : FromHtml.pipeRow cells = '|' :: (inner ++ ['|']) := by
    simp [FromHtml.pipeRow, inner]
  have htrim : trim (FromHtml.pipeRow cells) = FromHtml.pipeRow cells := by
    have hlast : ('|' :: (inner ++ ['|'])).getLast?.any (!isBlank ·) = true := by
      rw [← List.cons_append, List.getLast?_append]
      rfl
    rw [hrow]
    simpa using trim_append (s := []) rfl hlast rfl
  have hreverse : (inner ++ ['|']).reverse =
      '|' :: ' ' :: (' ' :: " | ".toList.intercalate cells).reverse := by simp [inner]
  have hclosing : Row.dropClosing (inner ++ ['|']) = inner := by
    rw [Row.dropClosing, endsWith, endsWith, List.isSuffixOf, List.isSuffixOf, hreverse]
    exact List.dropLast_concat
  rw [Row.cells, htrim, hrow, Row.dropOpening, hclosing]

/-- A row is read back cell by cell, and a pipe inside a cell cuts the cell. -/
theorem cells_pipeRow {cells : List Text} (hne : cells ≠ []) (h : ∀ t ∈ cells, '\\' ∉ t) :
    Row.cells (FromHtml.pipeRow cells) = cells.flatMap cut := by
  have hbackslash : '\\' ∉ ' ' :: (" | ".toList.intercalate cells ++ [' ']) := by
    have hbetween : ∀ c ∈ " | ".toList, c ≠ '\\' := forall_mem_of_all (by decide)
    have hcells := forall_mem_intercalate hbetween fun t ht c hc => ne_of_mem_of_not_mem hc (h t ht)
    simpa using fun hmem => hcells _ hmem rfl
  rw [cells_pipeRow_eq_cellsFrom, cellsFrom_eq_cut List.not_mem_nil hbackslash]
  exact cut_intercalate hne

/-- Cells without pipes are whole. -/
theorem IsCell.cut_eq (h : IsCell t) : cut t = [t] := by
  have htrim := trim_append (s := []) h.first h.last rfl
  rw [List.append_nil] at htrim
  rw [cut_of_not_mem h.pipe, htrim]

theorem cells_pipeRow_of_isCell {cells : List Text} (hne : cells ≠ []) (h : ∀ t ∈ cells, IsCell t) :
    Row.cells (FromHtml.pipeRow cells) = cells := by
  rw [cells_pipeRow hne fun t ht => (h t ht).backslash, List.flatMap_congr fun t ht => (h t ht).cut_eq]
  simp

theorem isCell_of_mem_isRow {cells : List Text} (h : isRow cells = true) (ht : t ∈ cells) :
    IsCell t :=
  isCell_of_isPlain ((isRow_iff.mp h).2 t ht)

theorem alignments?_separators {alignments : List (Option Alignment)} (hne : alignments ≠ []) :
    Row.alignments? (FromHtml.pipeRow (alignments.map FromHtml.separator)) = some alignments := by
  have hpipe : '|' ∈ FromHtml.pipeRow (alignments.map FromHtml.separator) := List.mem_cons_self
  have hcell : ∀ t ∈ alignments.map FromHtml.separator, IsCell t := by
    intro t ht
    obtain ⟨a, -, rfl⟩ := List.mem_map.mp ht
    exact isCell_separator a
  have hcells := cells_pipeRow_of_isCell (by simpa using hne) hcell
  have hall : (alignments.map FromHtml.separator).all Row.isSeparator = true := by
    simp only [List.all_map, List.all_eq_true, Function.comp_apply]
    intro a _
    rcases a with _ | _ | _ | _ <;> decide
  have hback : Row.alignmentOf ∘ FromHtml.separator = id := by
    funext a
    rcases a with _ | _ | _ | _ <;> decide
  rw [Row.alignments?, if_pos hpipe, hcells, if_pos hall, List.map_map, hback, List.map_id]

theorem isRow_pipeRow (cells : List Text) : Table.isRow (FromHtml.pipeRow cells) = true := by
  have hblank : allBlank (FromHtml.pipeRow cells) = false := rfl
  have hpipe : '|' ∈ FromHtml.pipeRow cells := List.mem_cons_self
  simp [Table.isRow, hblank, hpipe]

theorem IsGap.takeWhile_isRow {tail : List Text} (h : IsGap tail) : tail.takeWhile Table.isRow = [] := by
  rcases h with rfl | ⟨rest, rfl⟩
  · rfl
  · rfl

/-- Rows with a line of separators below the first are a table, whatever the cells. -/
theorem matchAt_pipeRows (structured : Bool) (number : Nat) (headers : List Text)
    {alignments : List (Option Alignment)} (rows : List (List Text)) {tail : List Text}
    (htail : IsGap tail) (halignments : alignments ≠ []) :
    matchAt structured number (FromHtml.pipeRow headers)
        (FromHtml.pipeRow (alignments.map FromHtml.separator) ::
          (rows.map FromHtml.pipeRow ++ tail)) =
      ⟨.table (Row.cells (FromHtml.pipeRow headers)) alignments
          (rows.map fun row => Row.cells (FromHtml.pipeRow row)), rows.length + 1, []⟩ := by
  have hbody : (rows.map FromHtml.pipeRow ++ tail).takeWhile Table.isRow =
      rows.map FromHtml.pipeRow := by
    rw [List.takeWhile_append_of_pos, htail.takeWhile_isRow, List.append_nil]
    intro l hl
    obtain ⟨cells, -, rfl⟩ := List.mem_map.mp hl
    exact isRow_pipeRow cells
  have hpipe : '|' ∈ FromHtml.pipeRow headers := List.mem_cons_self
  have htable : Table.recognise number (FromHtml.pipeRow headers)
      (FromHtml.pipeRow (alignments.map FromHtml.separator) ::
        (rows.map FromHtml.pipeRow ++ tail)) =
      some ⟨.table (Row.cells (FromHtml.pipeRow headers)) alignments
        (rows.map fun row => Row.cells (FromHtml.pipeRow row)), rows.length + 1, []⟩ := by
    simp only [Table.recognise]
    rw [if_pos hpipe, alignments?_separators halignments, hbody, List.map_map]
    simp [Function.comp_def]
  have hunder : Heading.underlineLevel?
      (FromHtml.pipeRow (alignments.map FromHtml.separator)) = none := rfl
  rw [matchAt_of_later]
  · rw [Shape.firstMatch, Shape.afterQuote, List.cons_append, List.findSome?_cons,
      Shape.recogniser, htable]
    rfl
  · exact firstMatch_beforeQuote (by decide) (recogniseUnderlined_eq_none (by simp [hunder]))
  · exact strip?_cons _ (by decide) (by decide)

theorem matchAt_table (structured : Bool) (number : Nat) {headers : List Text}
    {alignments : List (Option Alignment)} {rows : List (List Text)} {tail : List Text}
    (htail : IsGap tail) (hheaders : isRow headers = true)
    (halignments : alignments.length = headers.length) (hrows : rows.all isRow = true) :
    matchAt structured number (FromHtml.pipeRow headers)
        (FromHtml.pipeRow (alignments.map FromHtml.separator) ::
          (rows.map FromHtml.pipeRow ++ tail)) =
      ⟨.table headers alignments rows, rows.length + 1, []⟩ := by
  have hcells : ∀ row, isRow row = true → Row.cells (FromHtml.pipeRow row) = row := fun row hrow =>
    cells_pipeRow_of_isCell (isRow_iff.mp hrow).1 fun t ht => isCell_of_mem_isRow hrow ht
  have hne : alignments ≠ [] := by
    rintro rfl
    exact (isRow_iff.mp hheaders).1 (List.length_eq_zero_iff.mp halignments.symm)
  have hall : rows.map (fun row => Row.cells (FromHtml.pipeRow row)) = rows := by
    conv_rhs => rw [← List.map_id rows]
    exact List.map_congr_left fun row hrow => hcells row (List.all_eq_true.mp hrows row hrow)
  rw [matchAt_pipeRows structured number headers rows htail hne, hcells headers hheaders, hall]

/-! ### Definition lists -/

theorem meaning?_line (h : isPlain t = true) : Glossary.meaning? (':' :: ' ' :: t) = some t := by
  rw [Glossary.meaning?, trim_of_isPlain h]

theorem meaning?_of_isPlain (h : isPlain t = true) : Glossary.meaning? t = none := by
  obtain ⟨c, r, rfl, hc⟩ := exists_cons_of_isPlain h
  unfold Glossary.meaning?
  split
  · next heq => exact absurd (List.cons.inj heq).1 (ne_of_class hc rfl)
  · rfl

theorem meanings_append {ms : List Text} {rest : List Text} (h : ms.all isPlain = true)
    (hrest : ∀ l ∈ rest.head?, Glossary.meaning? l = none) :
    Glossary.meanings (ms.map (fun m => ':' :: ' ' :: m) ++ rest) = ms := by
  induction ms with
  | nil =>
    cases rest with
    | nil => rfl
    | cons l rest => simp [Glossary.meanings, hrest l rfl]
  | cons m ms ih =>
    simp only [List.all_cons, Bool.and_eq_true] at h
    simp [Glossary.meanings, meaning?_line h.1, ih h.2]

theorem isTerm_of_isPlain (h : isPlain t = true) : Glossary.isTerm t = true := by
  have htrim := trim_of_isPlain h
  obtain ⟨c, r, rfl, hc⟩ := exists_cons_of_isPlain h
  have hne : ∀ d, isAsciiLetter d = false → (c == d) = false :=
    fun d hd => beq_eq_false_iff_ne.mpr (ne_of_class hc hd)
  simp only [Glossary.isTerm, htrim, hne '-' rfl, hne '*' rfl, hne '+' rfl, hne '#' rfl, hne '>' rfl,
    hne ':' rfl, isDigit_of_isAsciiLetter hc]
  rfl

/-- Where a definition list ends. -/
def EndsGlossary (tail : List Text) : Prop :=
  (∀ l ∈ tail.head?, Glossary.meaning? l = none) ∧ Glossary.entries tail = ([], 0)

theorem startsEntry_definitionLines {d : Definition} (rest : List Text) (h : isDefinition d = true) :
    Glossary.startsEntry (definitionLines d ++ rest) = true := by
  obtain ⟨hterm, hne, hmeanings⟩ := isDefinition_iff.mp h
  obtain ⟨m, ms, hms⟩ := List.exists_cons_of_ne_nil hne
  simp only [hms, List.all_cons, Bool.and_eq_true] at hmeanings
  rw [definitionLines, hms]
  show (Glossary.isTerm d.term && (Glossary.meaning? (':' :: ' ' :: m)).isSome) = true
  rw [isTerm_of_isPlain hterm, meaning?_line hmeanings.1]
  rfl

theorem entries_definitionLines {items : List Definition} {tail : List Text}
    (h : items.all isDefinition = true) (htail : EndsGlossary tail) :
    Glossary.entries (items.flatMap definitionLines ++ tail) =
      (items, (items.flatMap definitionLines).length) := by
  induction items with
  | nil => exact htail.2
  | cons d items ih =>
    simp only [List.all_cons, Bool.and_eq_true] at h
    obtain ⟨hterm, -, hmeanings⟩ := isDefinition_iff.mp h.1
    have hnext : ∀ l ∈ (items.flatMap definitionLines ++ tail).head?,
        Glossary.meaning? l = none := by
      cases items with
      | nil => exact htail.1
      | cons e items =>
        simp only [List.all_cons, Bool.and_eq_true] at h
        rintro l ⟨⟩
        exact meaning?_of_isPlain (isDefinition_iff.mp h.2.1).1
    have hread := meanings_append hmeanings hnext
    have hstarts := startsEntry_definitionLines (items.flatMap definitionLines ++ tail) h.1
    rw [List.flatMap_cons, List.append_assoc]
    rw [definitionLines, List.cons_append] at hstarts ⊢
    rw [Glossary.entries, if_pos hstarts]
    simp only [hread]
    have hdrop : (d.meanings.map (fun m => ':' :: ' ' :: m) ++
        (items.flatMap definitionLines ++ tail)).drop d.meanings.length =
        items.flatMap definitionLines ++ tail := List.drop_left' (by simp)
    rw [hdrop, ih h.2, trim_of_isPlain hterm]
    simp
    omega

theorem matchAt_definitions (structured : Bool) (number : Nat) {items : List Definition}
    {line : Text} {rest tail : List Text} (hne : items ≠ []) (h : items.all isDefinition = true)
    (htail : EndsGlossary tail) (hlines : items.flatMap definitionLines ++ tail = line :: rest) :
    matchAt structured number line rest =
      ⟨.definitions items, (items.flatMap definitionLines).length - 1, []⟩ := by
  obtain ⟨d, items, rfl⟩ := List.exists_cons_of_ne_nil hne
  have hread := entries_definitionLines h htail
  simp only [List.all_cons, Bool.and_eq_true] at h
  obtain ⟨hterm, hmeanings, -⟩ := isDefinition_iff.mp h.1
  obtain ⟨m, ms, hms⟩ := List.exists_cons_of_ne_nil hmeanings
  have hstarts := startsEntry_definitionLines (items.flatMap definitionLines ++ tail) h.1
  rw [List.flatMap_cons, List.append_assoc] at hlines hread
  rw [hlines] at hread hstarts
  rw [definitionLines, hms] at hlines
  obtain ⟨rfl, hrest⟩ := List.cons.inj hlines
  have hpipe : '|' ∉ d.term := not_mem_of_isPlain hterm (by decide)
  have htable := recognise_table_eq_none number rest hpipe
  have hglossary : Glossary.recognise number d.term rest =
      some ⟨.definitions (d :: items), (definitionLines d ++ items.flatMap definitionLines).length - 1,
        []⟩ := by
    rw [Glossary.recognise, if_pos hstarts, hread]
  obtain ⟨c, r, hcons, hc, hblank, hquiet⟩ := exists_quiet_of_isPlain hterm
  have hunder : Heading.recogniseUnderlined number d.term rest = none := by
    apply recogniseUnderlined_eq_none
    rw [← hrest]
    rintro next ⟨⟩
    rfl
  rw [matchAt_of_later]
  · simp only [Shape.firstMatch, Shape.afterQuote, List.cons_append, List.findSome?_cons,
      Shape.recogniser, htable, hglossary]
    rfl
  · rw [hcons] at hunder ⊢
    exact firstMatch_beforeQuote hquiet hunder
  · rw [hcons]
    exact strip?_cons r hblank (ne_of_class hc rfl)

/-! ### Lists -/

theorem trim_markerLine (ordered : Bool) (number : Nat) (checked : Option Bool) {content : Text}
    (h : isPlain content = true) :
    trim (markerLine ordered number checked content) = markerLine ordered number checked content := by
  have := (framed_markerLine ordered number checked h).trim_unlines (s := []) rfl
  simpa [unlines] using this

theorem isTerm_markerLine (ordered : Bool) (number : Nat) (checked : Option Bool) {content : Text}
    (h : isPlain content = true) :
    Glossary.isTerm (markerLine ordered number checked content) = false := by
  have htrim := trim_markerLine ordered number checked h
  obtain ⟨c, r, hline, hc⟩ := exists_cons_markerLine ordered number checked content
  rw [hline] at htrim ⊢
  rcases hc with ⟨rfl, rfl⟩ | hc
  · simp [Glossary.isTerm, htrim]
  · simp [Glossary.isTerm, htrim, isDigit_of_isAsciiDigit hc]

theorem pipe_notMem_markerLine (ordered : Bool) (number : Nat) (checked : Option Bool)
    {content : Text} (h : isPlain content = true) :
    '|' ∉ markerLine ordered number checked content := by
  have hmark : '|' ∉ mark ordered number := by
    cases ordered with
    | false => simp [mark]
    | true =>
      have hdigits : '|' ∉ ofNat number := fun hmem =>
        absurd (isAsciiDigit_of_mem_ofNat hmem) (by decide)
      simp [mark, hdigits]
  have hbox : '|' ∉ box checked := by rcases checked with _ | _ | _ <;> decide
  have hcontent : '|' ∉ content := not_mem_of_isPlain h (by decide)
  simp [markerLine, hmark, hbox, hcontent]

/-- No recogniser before that of lists looks at the first line of a list. -/
theorem matchAt_markerLine (structured : Bool) (number : Nat) {ordered : Bool} {n : Nat}
    {checked : Option Bool} {content : Text} {rest : List Text} {m : Match}
    (h : isPlain content = true)
    (hmatch : Listing.recognise number (markerLine ordered n checked content) rest = some m) :
    matchAt structured number (markerLine ordered n checked content) rest = m := by
  have hpipe := pipe_notMem_markerLine ordered n checked h
  have htrim := trim_markerLine ordered n checked h
  have hmarker : (Line.marker? (markerLine ordered n checked content)).isSome = true := by
    rw [show markerLine ordered n checked content = shift 0 (markerLine ordered n checked content)
      from rfl, marker?_shift 0 ordered n checked (isEntryText_of_isPlain h)]
    rfl
  have hunder : Heading.recogniseUnderlined number (markerLine ordered n checked content) rest =
      none := by
    cases rest with
    | nil => rfl
    | cons next rest => simp [Heading.recogniseUnderlined, hmarker]
  have htable := recognise_table_eq_none number rest hpipe
  have hterm := isTerm_markerLine ordered n checked h
  obtain ⟨c, r, hline, hc⟩ := exists_cons_markerLine ordered n checked content
  rw [hline] at htrim hmarker hunder htable hterm hmatch ⊢
  have hrule : Line.isRule (c :: r) = false := by
    rcases hc with ⟨rfl, rfl⟩ | hc
    · simp [Line.isRule, htrim]
    · exact isRule_cons r (isBlank_of_isAsciiDigit hc)
        ⟨ne_of_class hc rfl, ne_of_class hc rfl, ne_of_class hc rfl⟩
  have hglossary : Glossary.recognise number (c :: r) rest = none := by
    rw [Glossary.recognise, if_neg]
    cases rest <;> simp [Glossary.startsEntry, hterm]
  have hclass : isBlank c = false ∧ c ≠ '\x60' ∧ c ≠ '#' ∧ c ≠ '>' := by
    rcases hc with ⟨rfl, -⟩ | hc
    · decide
    · exact ⟨isBlank_of_isAsciiDigit hc, ne_of_class hc rfl, ne_of_class hc rfl, ne_of_class hc rfl⟩
  obtain ⟨hblank, hfence, hhash, hquote⟩ := hclass
  have hfirst : Shape.firstMatch Shape.beforeQuote number (c :: r) rest = none := by
    simp [Shape.firstMatch, Shape.beforeQuote, Shape.recogniser, Fence.recognise,
      isFence_cons r hblank hfence, Heading.recognise, hashes?_cons r hhash, hunder,
      Heading.recogniseRule, hrule]
  rw [matchAt_of_later hfirst (strip?_cons r hblank hquote)]
  simp only [Shape.firstMatch, Shape.afterQuote, List.cons_append, List.findSome?_cons,
    Shape.recogniser, htable, hglossary, hmatch]
  rfl

/-- An outline without breaks is one list in front of lines at which it ends. -/
theorem matchAt_list (structured : Bool) (number : Nat) {ordered : Bool} {start : Int}
    {items : List Item} {line : Text} {rest tail : List Text}
    (h : isOutline (.list ordered start items) = true)
    (hbreaks : breaks (.list ordered start items) = 0) (hends : Ends 0 ordered tail)
    (hinner : EndsInner 0 tail)
    (hlines : itemsLines ordered start.toNat items ++ tail = line :: rest) :
    matchAt structured number line rest =
      ⟨.list ordered start items, (itemsLines ordered start.toNat items).length - 1, []⟩ := by
  obtain ⟨htree, hsame, -⟩ := isTree_of_isOutline h hbreaks
  have hmatch := recognise_itemsLines number htree hends hinner hlines
  rw [hsame] at hmatch
  obtain ⟨ordered', start', items', heq, hne, -, hitems⟩ := exists_items_of_isOutline h
  injection heq with hordered hstart hitemsEq
  subst hordered hstart hitemsEq
  obtain ⟨i, r, rfl⟩ := List.exists_cons_of_ne_nil hne
  obtain ⟨content, checked, children⟩ := i
  rw [areOutlineItems_cons, isOutlineItem_mk] at hitems
  rw [breaks, itemsBreaks_cons] at hbreaks
  obtain ⟨rfl, -⟩ := List.cons.inj hlines
  exact matchAt_markerLine structured number (isPlain_of_isWrapped hitems.1.1 hbreaks.1) hmatch

/-! ### Quotes -/

theorem strip?_quoted (line : Text) : Quote.strip? (quoted line) = some line := by
  cases line with
  | nil => rfl
  | cons c r => rfl

theorem underlineLevel?_quoted (line : Text) : Heading.underlineLevel? (quoted line) = none := by
  cases line with
  | nil => rfl
  | cons c r => rfl

theorem body_quoted {tail : List Text} (htail : IsGap tail) (ls : List Text) :
    Quote.body (ls.map quoted ++ tail) = ls := by
  induction ls with
  | nil => rcases htail with rfl | ⟨rest, rfl⟩ <;> rfl
  | cons l ls ih =>
    rw [List.map_cons, List.cons_append, Quote.body, strip?_quoted]
    simp only [ih]

/-- Lines in a quote in front of a gap are one quote, whatever they are and whatever is noted about
them. -/
theorem matchAt_quoted (structured : Bool) (number : Nat) (line : Text) (ls : List Text)
    {tail : List Text} (htail : IsGap tail) :
    matchAt structured number (quoted line) (ls.map quoted ++ tail) =
      ⟨.quote (unlines (line :: ls)) (blocks structured (line :: ls)).value, ls.length,
        (blocks structured (line :: ls)).notes⟩ := by
  have hunder : Heading.recogniseUnderlined number (quoted line) (ls.map quoted ++ tail) = none := by
    apply recogniseUnderlined_eq_none
    cases ls with
    | nil => exact htail.underlineLevel?
    | cons l ls =>
      rintro next ⟨⟩
      exact underlineLevel?_quoted l
  have hfirst : Shape.firstMatch Shape.beforeQuote number (quoted line) (ls.map quoted ++ tail) =
      none := by
    obtain ⟨r, hr⟩ : ∃ r, quoted line = '>' :: r := by
      cases line with
      | nil => exact ⟨_, rfl⟩
      | cons c r => exact ⟨_, rfl⟩
    rw [hr] at hunder ⊢
    exact firstMatch_beforeQuote (by decide) hunder
  rw [matchAt_of_quote hfirst (strip?_quoted line), body_quoted htail]

theorem matchAt_quote (structured : Bool) (number : Nat) {children : List Block} {line : Text}
    {ls tail : List Text} (htail : IsGap tail) (hlines : lines children = line :: ls)
    (hchildren : blocks structured (lines children) = pure children) :
    matchAt structured number (quoted line) (ls.map quoted ++ tail) =
      ⟨.quote (text children) children, ls.length, []⟩ := by
  rw [matchAt_quoted structured number line ls htail, ← hlines, hchildren]
  rfl

/-! ### What stands behind lists and definition lists -/

/-- The first line of a block begins at the left. -/
theorem exists_first_line {b : Block} (h : isBlock b = true) :
    ∃ c l r, blockLines b = (c :: l) :: r ∧ isBlank c = false := by
  have hopens := (framed_blockLines b h).opens
  cases hlines : blockLines b with
  | nil => simp [hlines, opens] at hopens
  | cons line r =>
    cases line with
    | nil => simp [hlines, opens] at hopens
    | cons c l => exact ⟨c, l, r, rfl, by simpa [hlines, opens] using hopens⟩

theorem allBlank_first_line {b : Block} (h : isBlock b = true) :
    ∀ line ∈ (blockLines b).head?, allBlank line = false := by
  obtain ⟨c, l, r, hlines, hc⟩ := exists_first_line h
  rw [hlines]
  rintro line ⟨⟩
  exact allBlank_shift 0 l hc

/-- Only lists begin with a marker. -/
theorem marker?_first_line {b : Block} (h : isBlock b = true) (hlist : isList b = false) :
    ∀ line ∈ (blockLines b).head?, Line.marker? line = none := by
  have hplain : ∀ t, isPlain t = true → Line.marker? t = none := by
    intro t ht
    obtain ⟨c, r, rfl, hc⟩ := exists_cons_of_isPlain ht
    exact marker?_cons r (isBlank_of_isAsciiLetter hc) (isDigit_of_isAsciiLetter hc)
      ⟨ne_of_class hc rfl, ne_of_class hc rfl, ne_of_class hc rfl⟩
  cases b with
  | heading level t =>
    simp only [isBlock, Bool.and_eq_true, decide_eq_true_eq] at h
    obtain ⟨n, hn⟩ : ∃ n, level.toNat = n + 1 := ⟨level.toNat - 1, by omega⟩
    rintro line ⟨⟩
    rw [hn]
    exact marker?_cons _ (by decide) (by decide) (by decide)
  | paragraph t =>
    rintro line ⟨⟩
    exact hplain t h
  | code language content detected =>
    rintro line ⟨⟩
    exact marker?_cons _ (by decide) (by decide) (by decide)
  | list => cases hlist
  | table headers alignments rows =>
    rintro line ⟨⟩
    exact marker?_cons _ (by decide) (by decide) (by decide)
  | quote content children =>
    intro line hline
    rw [blockLines, List.head?_map] at hline
    obtain ⟨l, -, rfl⟩ := Option.map_eq_some_iff.mp hline
    cases l with
    | nil => exact marker?_cons _ (by decide) (by decide) (by decide)
    | cons c r => exact marker?_cons _ (by decide) (by decide) (by decide)
  | rule =>
    rintro line ⟨⟩
    decide
  | definitions items =>
    cases items with
    | nil => simp [blockLines]
    | cons d items =>
      simp only [isBlock, List.all_cons, Bool.and_eq_true] at h
      rintro line ⟨⟩
      exact hplain d.term (isDefinition_iff.mp h.2.1).1
  | footnote => cases h
  | foreign => cases h

theorem ends_gap {column : Nat} {ordered : Bool} {rest : List Text}
    (h : Listing.resumesAfter? column ordered rest = none) : Ends column ordered ([] :: rest) := by
  apply ends_of_turn
  simp [Listing.turn, allBlank, h]

/-- A list does not go on behind a block further to the left. -/
theorem endsInner_gapLines {bs : List Block} (h : areBlocks bs = true) :
    EndsInner 0 (gapLines bs) := by
  intro column hcolumn ordered
  cases bs with
  | nil => exact ends_nil column ordered
  | cons b r =>
    rw [areBlocks_cons] at h
    obtain ⟨c, l, ls, hline, hc⟩ := exists_first_line h.1
    have hindent : Line.indent (c :: l) = 0 := indent_shift 0 l hc
    have hblank : allBlank (c :: l) = false := allBlank_shift 0 l hc
    apply ends_gap
    rw [lines_cons, hline]
    simp only [Listing.resumesAfter?, List.cons_append, List.takeWhile_cons, hblank,
      Bool.false_eq_true, if_false, List.length_nil, List.drop_zero, hindent]
    cases Line.marker? (c :: l) with
    | none => rfl
    | some m =>
      have hne : column ≠ 0 := by omega
      simp [hne]

/-- A list does not go on behind a block that is no list of its kind. -/
theorem ends_gapLines {ordered : Bool} {start : Int} {items : List Item} {bs : List Block}
    (h : areBlocks bs = true) (hapart : standsApart (.list ordered start items) bs = true) :
    Ends 0 ordered (gapLines bs) := by
  cases bs with
  | nil => exact ends_nil 0 ordered
  | cons b r =>
    rw [areBlocks_cons] at h
    obtain ⟨c, l, ls, hline, hc⟩ := exists_first_line h.1
    have hblank : allBlank (c :: l) = false := allBlank_shift 0 l hc
    apply ends_gap
    rw [lines_cons, hline]
    simp only [Listing.resumesAfter?, List.cons_append, List.takeWhile_cons, hblank,
      Bool.false_eq_true, if_false, List.length_nil, List.drop_zero]
    by_cases hlist : isList b = true
    · obtain ⟨ordered', start', content, checked, children, items', rfl, -, hitem, -⟩ :=
        exists_item_of_isList hlist h.1
      have hne : ordered ≠ ordered' := bne_iff_ne.mp hapart
      have hfirst : markerLine ordered' start'.toNat checked content = c :: l := (List.cons.inj hline).1
      have hmarker := marker?_shift 0 ordered' start'.toNat checked
        (isEntryText_of_isPlain (isItem_mk.mp hitem).1)
      rw [show shift 0 (markerLine ordered' start'.toNat checked content) = c :: l from hfirst]
        at hmarker
      simp [hmarker, hne.symm]
    · have hnone := marker?_first_line h.1 (Bool.eq_false_iff.mpr hlist) (c :: l) (by rw [hline]; rfl)
      rw [hnone]

theorem isTerm_cons (r : Text) (hc : isBlank c = false)
    (h : (c == '-' || c == '*' || c == '+' || c == '#' || c == '>' || c == ':' || isDigit c) = true) :
    Glossary.isTerm (c :: r) = false := by
  obtain ⟨s, hs⟩ := trim_cons hc r
  simp only [Glossary.isTerm, hs, h]
  rfl

/-- A definition list does not go on behind a block that stays apart from it. -/
theorem startsEntry_eq_false {items : List Definition} {b : Block} {tail : List Text}
    (h : isBlock b = true) (hapart : areApart (.definitions items) b = true) (htail : IsGap tail) :
    Glossary.startsEntry (blockLines b ++ tail) = false := by
  have hnoTerm : ∀ line rest, Glossary.isTerm line = false →
      Glossary.startsEntry (line :: rest) = false := by
    intro line rest hterm
    cases rest <;> simp [Glossary.startsEntry, hterm]
  cases b with
  | heading level t =>
    simp only [isBlock, Bool.and_eq_true, decide_eq_true_eq] at h
    obtain ⟨n, hn⟩ : ∃ n, level.toNat = n + 1 := ⟨level.toNat - 1, by omega⟩
    apply hnoTerm
    rw [hn]
    exact isTerm_cons _ (by decide) (by decide)
  | paragraph t => rcases htail with rfl | ⟨rest, rfl⟩ <;> simp [blockLines, Glossary.startsEntry,
      Glossary.meaning?]
  | code language content detected =>
    rw [blockLines]
    cases hlines : Text.lines content with
    | nil => simp [Glossary.startsEntry, Glossary.meaning?, fence]
    | cons l ls =>
      simp only [areApart, hlines] at hapart
      simp only [List.head?_cons, Option.bind_some, Bool.not_eq_true'] at hapart
      simp [Glossary.startsEntry, hapart]
  | list ordered start entries =>
    obtain ⟨ordered', start', content, checked, children, items', heq, -, hitem, -⟩ :=
      exists_item_of_isList rfl h
    rw [heq]
    exact hnoTerm _ _ (isTerm_markerLine _ _ _ (isItem_mk.mp hitem).1)
  | table headers alignments rows =>
    have hseparators : Glossary.meaning? (FromHtml.pipeRow (alignments.map FromHtml.separator)) =
      none := rfl
    simp [blockLines, Glossary.startsEntry, hseparators]
  | quote content children =>
    rw [blockLines]
    cases hlines : lines children with
    | nil =>
      obtain ⟨c, l, ls, hline, -⟩ := exists_first_line h
      simp [blockLines, hlines] at hline
    | cons l ls =>
      apply hnoTerm
      cases l with
      | nil => exact isTerm_cons _ (by decide) (by decide)
      | cons c r => exact isTerm_cons _ (by decide) (by decide)
  | rule => exact hnoTerm _ _ (by decide)
  | definitions => cases hapart
  | footnote => cases h
  | foreign => cases h

theorem endsGlossary_gapLines {items : List Definition} {bs : List Block} (h : areBlocks bs = true)
    (hapart : standsApart (.definitions items) bs = true) : EndsGlossary (gapLines bs) := by
  cases bs with
  | nil => exact ⟨by simp [gapLines], by simp [gapLines, Glossary.entries]⟩
  | cons b r =>
    rw [areBlocks_cons] at h
    obtain ⟨c, l, ls, hline, hc⟩ := exists_first_line h.1
    have hblank : allBlank (c :: l) = false := allBlank_shift 0 l hc
    have hstarts := startsEntry_eq_false h.1 hapart (isGap_gapLines r)
    rw [← lines_cons] at hstarts
    have hempty : Glossary.startsEntry ([] :: lines (b :: r)) = false := by
      rw [lines_cons, hline]
      rfl
    refine ⟨by rintro l ⟨⟩; rfl, ?_⟩
    show Glossary.entries ([] :: lines (b :: r)) = ([], 0)
    rw [Glossary.entries, if_neg (by simp [hempty]), if_pos (by rfl)]
    have hblanks : (lines (b :: r)).takeWhile allBlank = [] := by
      rw [lines_cons, hline]
      simp [hblank]
    simp only [hblanks, List.length_nil, List.drop_zero, hstarts]
    rfl

/-! ### Documents -/

theorem blocksFrom_gapLines {structured : Bool} {bs : List Block}
    (h : ∀ n, blocksFrom structured n (lines bs) = pure bs) (n : Nat) :
    blocksFrom structured n (gapLines bs) = pure bs := by
  cases bs with
  | nil => exact h n
  | cons b r =>
    show blocksFrom structured n ([] :: lines (b :: r)) = pure (b :: r)
    rw [blocksFrom_blank structured n _ rfl]
    exact h (n + 1)

/-- Splitting goes on behind a block whose match takes all its lines. -/
theorem blocksFrom_of_whole {structured : Bool} {n : Nat} {b : Block} {r : List Block} {line : Text}
    {ls : List Text} (h : isBlock b = true) (hlines : blockLines b = line :: ls)
    (hmatch : matchAt structured n line (ls ++ gapLines r) = ⟨b, ls.length, []⟩)
    (hbehind : ∀ k, blocksFrom structured k (gapLines r) = pure r) :
    blocksFrom structured n (blockLines b ++ gapLines r) = pure (b :: r) := by
  have hline : allBlank line = false := allBlank_first_line h line (by rw [hlines]; rfl)
  rw [hlines, List.cons_append]
  apply blocksFrom_of_matchAt hline hmatch
  rw [List.drop_left]
  exact hbehind

theorem blocksFrom_blockLines {structured : Bool} {b : Block} {r : List Block}
    (h : isBlock b = true) (hapart : standsApart b r = true) (hr : areBlocks r = true)
    (hrest : ∀ n, blocksFrom structured n (lines r) = pure r)
    (hchildren : ∀ content children, b = .quote content children →
      ∀ n, blocksFrom structured n (lines children) = pure children) (n : Nat) :
    blocksFrom structured n (blockLines b ++ gapLines r) = pure (b :: r) := by
  have hgap := isGap_gapLines r
  have hbehind := blocksFrom_gapLines hrest
  obtain ⟨c, l, ls, hlines, -⟩ := exists_first_line h
  have hvalid := h
  cases b with
  | heading level t =>
    simp only [isBlock, Bool.and_eq_true, decide_eq_true_eq] at h
    exact blocksFrom_of_whole hvalid rfl
      (matchAt_of_first (firstMatch_heading n _ h.1.1 h.1.2 h.2)) hbehind
  | paragraph t =>
    apply blocksFrom_of_matchAt (allBlank_first_line hvalid _ rfl)
      (matchAt_paragraph structured n hgap h)
    cases r with
    | nil => exact hrest
    | cons c r => exact hrest
  | code language content detected =>
    simp only [isBlock, Bool.and_eq_true, Bool.not_eq_true'] at h
    obtain ⟨⟨hlanguage, hcontent⟩, rfl⟩ := h
    have hmatch := firstMatch_code n (gapLines r)
      (fun c hc => isBlank_of_isAsciiLetter (isAsciiLetter_of_isLanguage hlanguage hc))
      (fun l hl => isFence_of_isCodeLine (List.all_eq_true.mp hcontent l hl))
    rw [unlines_lines] at hmatch
    apply blocksFrom_of_whole hvalid rfl _ hbehind
    rw [List.append_assoc, List.length_append]
    exact matchAt_of_first hmatch
  | list ordered start items =>
    obtain ⟨houtline, hbreaks⟩ := isOutline_of_isBlock rfl h
    have hmatch := matchAt_list structured n houtline hbreaks (ends_gapLines hr hapart) (endsInner_gapLines hr)
      (by rw [← List.cons_append, ← hlines, blockLines] : _ = (c :: l) :: (ls ++ gapLines r))
    have hlength : (itemsLines ordered start.toNat items).length - 1 = ls.length := by
      rw [blockLines] at hlines
      simp [hlines]
    exact blocksFrom_of_whole hvalid hlines (hlength ▸ hmatch) hbehind
  | table headers alignments rows =>
    simp only [isBlock, Bool.and_eq_true, decide_eq_true_eq] at h
    apply blocksFrom_of_whole hvalid rfl _ hbehind
    rw [List.length_cons, List.length_map]
    exact matchAt_table structured n hgap h.1.1 h.1.2 h.2
  | quote content children =>
    simp only [isBlock, Bool.and_eq_true, decide_eq_true_eq] at h
    obtain ⟨⟨rfl, -⟩, -⟩ := h
    rw [blockLines] at hlines
    obtain ⟨line, ls', hinner, hline, rfl⟩ := List.map_eq_cons_iff.mp hlines
    have hmatch := matchAt_quote structured n hgap hinner (hchildren _ children rfl 0)
    rw [hline] at hmatch
    apply blocksFrom_of_whole hvalid (by rw [blockLines, hinner, List.map_cons, hline]) _ hbehind
    rw [List.length_map]
    exact hmatch
  | rule =>
    exact blocksFrom_of_whole hvalid rfl (matchAt_of_first (firstMatch_rule n _)) hbehind
  | definitions items =>
    simp only [isBlock, Bool.and_eq_true, Bool.not_eq_true', List.isEmpty_eq_false_iff] at h
    have hmatch := matchAt_definitions structured n h.1 h.2 (endsGlossary_gapLines hr hapart)
      (by rw [← List.cons_append, ← hlines, blockLines] : _ = (c :: l) :: (ls ++ gapLines r))
    have hlength : (items.flatMap definitionLines).length - 1 = ls.length := by
      rw [blockLines] at hlines
      simp [hlines]
    exact blocksFrom_of_whole hvalid hlines (hlength ▸ hmatch) hbehind
  | footnote => cases h
  | foreign => cases h

/-- The lines of a canonical document are split into its blocks. -/
theorem blocksFrom_lines (structured : Bool) (bs : List Block) (h : areBlocks bs = true) (n : Nat) :
    blocksFrom structured n (lines bs) = pure bs := by
  cases bs with
  | nil => exact blocksFrom_nil structured n
  | cons b r =>
    rw [areBlocks_cons] at h
    rw [lines_cons]
    apply blocksFrom_blockLines h.1 h.2.1 h.2.2 (blocksFrom_lines structured r h.2.2)
    intro content children hb
    have hchildren : areBlocks children = true := by
      rw [hb] at h
      simp only [isBlock, Bool.and_eq_true] at h
      exact h.1.2
    exact blocksFrom_lines structured children hchildren
termination_by sizeOf bs
decreasing_by all_goals subst_vars; simp only [List.cons.sizeOf_spec, Block.quote.sizeOf_spec]; omega

/-! ### Definitions of the document -/

/-- Whether a line begins, blanks aside, with a character that opens no code and no definition of the
document. -/
def isKept (line : Text) : Bool :=
  (trimStart line).head?.any fun c => c ≠ '\x60' && c ≠ '['

theorem isKept_cons (r : Text) (hc : isBlank c = false) (h : (c ≠ '\x60' && c ≠ '[') = true) :
    isKept (c :: r) = true := by
  rw [isKept, trimStart_cons hc]
  exact h

theorem isKept_of_isPlain (h : isPlain t = true) : isKept t = true := by
  obtain ⟨c, r, rfl, hc⟩ := exists_cons_of_isPlain h
  exact isKept_cons r (isBlank_of_isAsciiLetter hc)
    (by simp [ne_of_class hc (d := '\x60') rfl, ne_of_class hc (d := '[') rfl])

theorem isKept_markerLine (ordered : Bool) (number : Nat) (checked : Option Bool) (content : Text) :
    isKept (markerLine ordered number checked content) = true := by
  obtain ⟨c, r, hline, hc⟩ := exists_cons_markerLine ordered number checked content
  rw [hline]
  rcases hc with ⟨rfl, -⟩ | hc
  · exact isKept_cons r (by decide) (by decide)
  · exact isKept_cons r (isBlank_of_isAsciiDigit hc)
      (by simp [ne_of_class hc (d := '\x60') rfl, ne_of_class hc (d := '[') rfl])

theorem isKept_pipeRow (cells : List Text) : isKept (FromHtml.pipeRow cells) = true :=
  isKept_cons _ (by decide) (by decide)

theorem isFence_of_isKept {line : Text} (h : isKept line = true) : Line.isFence line = false := by
  unfold isKept at h
  cases hline : trimStart line with
  | nil => simp [hline] at h
  | cons c r =>
    simp only [hline, List.head?_cons, Option.any_some, Bool.and_eq_true, decide_eq_true_eq] at h
    have hne : (Char.ofNat 0x60 == c) = false := beq_eq_false_iff_ne.mpr h.1.symm
    rw [Line.isFence, hline, startsWith, List.replicate_succ, List.isPrefixOf_cons_cons, hne]
    rfl

theorem definitionLine?_of_isKept {line : Text} (h : isKept line = true) :
    References.definitionLine? line = none := by
  unfold isKept at h
  cases hline : trimStart line with
  | nil => simp [hline] at h
  | cons c r =>
    simp only [hline, List.head?_cons, Option.any_some, Bool.and_eq_true, decide_eq_true_eq] at h
    simp [References.definitionLine?, References.footnoteLine?, References.linkLine?, hline, h.2]

theorem isKept_append {line : Text} (h : isKept line = true) (s : Text) : isKept (line ++ s) = true := by
  unfold isKept at h
  cases hline : trimStart line with
  | nil => simp [hline] at h
  | cons c r =>
    have hstart : trimStart (line ++ s) = c :: (r ++ s) := by
      rw [trimStart, trimStartBy] at hline ⊢
      rw [List.dropWhile_append, hline]
      rfl
    rw [isKept, hstart]
    simpa [hline] using h

/-- Outlines define nothing. -/
theorem isKept_outlineItemsLines {ordered : Bool} (number : Nat) {items : List Item}
    (h : areOutlineItems ordered items = true) :
    ∀ l ∈ outlineItemsLines ordered number items, isKept l = true :=
  forall_mem_outlineItemsLines (fun _ _ _ _ _ => isKept_markerLine ..) (fun _ => isKept_of_isPlain)
    (fun _ hl => isKept_append hl _) (fun _ hl => hl) ordered number items h

theorem isKept_itemsLines {ordered : Bool} (number : Nat) {items : List Item}
    (h : areItems ordered items = true) :
    ∀ l ∈ itemsLines ordered number items, isKept l = true := by
  obtain ⟨houtline, hbreaks⟩ := areOutlineItems_of_areItems ordered items h
  obtain ⟨-, -, hlines⟩ := areTreeItems_of_areOutlineItems ordered items houtline hbreaks
  rw [← hlines]
  exact isKept_outlineItemsLines number houtline

/-- Lines that open no code and define nothing stay. -/
theorem extractLines_append (s : References) {ls : List Text} (tail : List Text)
    (h : ∀ l ∈ ls, Line.isFence l = false ∧ References.definitionLine? l = none) :
    References.extractLines s false (ls ++ tail) =
      (ls ++ (References.extractLines s false tail).1, (References.extractLines s false tail).2) := by
  induction ls with
  | nil => rfl
  | cons l ls ih =>
    obtain ⟨hfence, hline⟩ := h l List.mem_cons_self
    rw [List.cons_append, References.extractLines, hfence, hline,
      ih fun k hk => h k (List.mem_cons_of_mem l hk)]
    rfl

theorem extractLines_of_isKept (s : References) {ls : List Text} (tail : List Text)
    (h : ∀ l ∈ ls, isKept l = true) :
    References.extractLines s false (ls ++ tail) =
      (ls ++ (References.extractLines s false tail).1, (References.extractLines s false tail).2) :=
  extractLines_append s tail fun l hl =>
    ⟨isFence_of_isKept (h l hl), definitionLine?_of_isKept (h l hl)⟩

theorem extractLines_code (s : References) (language : Text) {ls : List Text} (tail : List Text)
    (h : ∀ l ∈ ls, Line.isFence l = false) :
    References.extractLines s false ((fence ++ language) :: (ls ++ fence :: tail)) =
      ((fence ++ language) :: (ls ++ fence :: (References.extractLines s false tail).1),
        (References.extractLines s false tail).2) := by
  have hopening : Line.isFence (fence ++ language) = true := rfl
  have hclosing : Line.isFence fence = true := rfl
  have hbody : References.extractLines s true (ls ++ fence :: tail) =
      (ls ++ fence :: (References.extractLines s false tail).1,
        (References.extractLines s false tail).2) := by
    induction ls with
    | nil => simp [References.extractLines, hclosing]
    | cons l ls ih =>
      rw [List.cons_append, References.extractLines, h l List.mem_cons_self,
        ih fun k hk => h k (List.mem_cons_of_mem l hk)]
      rfl
  rw [References.extractLines, hopening, if_pos rfl, Bool.not_false, hbody]

theorem extractLines_blockLines (s : References) {b : Block} (tail : List Text)
    (h : isBlock b = true) :
    References.extractLines s false (blockLines b ++ tail) =
      (blockLines b ++ (References.extractLines s false tail).1,
        (References.extractLines s false tail).2) := by
  cases b with
  | heading level t =>
    simp only [isBlock, Bool.and_eq_true, decide_eq_true_eq] at h
    obtain ⟨n, hn⟩ : ∃ n, level.toNat = n + 1 := ⟨level.toNat - 1, by omega⟩
    apply extractLines_of_isKept
    intro l hl
    rw [blockLines, List.mem_singleton] at hl
    rw [hl, hn]
    exact isKept_cons _ (by decide) (by decide)
  | paragraph t =>
    apply extractLines_of_isKept
    simpa [blockLines] using isKept_of_isPlain h
  | code language content detected =>
    simp only [isBlock, Bool.and_eq_true] at h
    simp only [blockLines, List.cons_append, List.append_assoc, List.nil_append]
    exact extractLines_code s language tail fun l hl =>
      isFence_of_isCodeLine (List.all_eq_true.mp h.1.2 l hl)
  | list ordered start items =>
    simp only [isBlock, Bool.and_eq_true] at h
    exact extractLines_of_isKept s tail (isKept_itemsLines start.toNat h.2)
  | table headers alignments rows =>
    apply extractLines_of_isKept
    simp [blockLines, isKept_pipeRow]
  | quote content children =>
    apply extractLines_of_isKept
    intro l hl
    obtain ⟨k, -, rfl⟩ := List.mem_map.mp hl
    cases k <;> exact isKept_cons _ (by decide) (by decide)
  | rule =>
    apply extractLines_of_isKept
    intro l hl
    rw [blockLines, List.mem_singleton] at hl
    rw [hl]
    decide
  | definitions items =>
    simp only [isBlock, Bool.and_eq_true, List.all_eq_true] at h
    apply extractLines_of_isKept
    intro l hl
    obtain ⟨d, hd, hl⟩ := List.mem_flatMap.mp hl
    rcases List.mem_cons.mp hl with rfl | hl
    · exact isKept_of_isPlain (isDefinition_iff.mp (h.2 d hd)).1
    · obtain ⟨m, -, rfl⟩ := List.mem_map.mp hl
      exact isKept_cons _ (by decide) (by decide)
  | footnote => cases h
  | foreign => cases h

theorem extractLines_lines (s : References) {bs : List Block} (h : areBlocks bs = true) :
    References.extractLines s false (lines bs) = (lines bs, s) := by
  induction bs with
  | nil => rfl
  | cons b r ih =>
    rw [areBlocks_cons] at h
    have hrest : References.extractLines s false (gapLines r) = (gapLines r, s) := by
      cases r with
      | nil => rfl
      | cons c r =>
        show References.extractLines s false ([] :: lines (c :: r)) = ([] :: lines (c :: r), s)
        have hempty : Line.isFence [] = false := rfl
        have hnothing : References.definitionLine? [] = none := rfl
        rw [References.extractLines, hempty, hnothing, ih h.2.2]
        rfl
    rw [lines_cons, extractLines_blockLines s _ h.1, hrest]

/-! ### Texts of documents -/

/-- The lines of a document are framed. -/
theorem framed_of_isDocument {bs : List Block} (h : isDocument bs = true) : Framed (lines bs) := by
  simp only [isDocument, Bool.and_eq_true, Bool.not_eq_true', List.isEmpty_eq_false_iff] at h
  exact framed_lines bs h.1 h.2

/-- A text of lines is split as the lines that define nothing are. -/
theorem tokenize_of_extractLines (c : Config) {s s' : References} {ls kept : List Text}
    (hne : unlines ls ≠ []) (hclean : ∀ l ∈ ls, '\n' ∉ l ∧ '\r' ∉ l)
    (hextract : s.extractLines false ls = (kept, s')) (hkept : kept ≠ []) (hsub : kept ⊆ ls) :
    tokenize c (unlines ls) s =
      (do
        let bs ← blocks c.structuredData kept
        Report.log (.tokenized bs.length s'.links.length s'.notes.length)
        pure bs, s') := by
  have hlines : ls ≠ [] := by
    rintro rfl
    exact hne rfl
  have hreturns : normalizeNewlines (unlines ls) = unlines ls := by
    apply normalizeNewlines_eq_self
    intro hmem
    have hclass := forall_mem_intercalate (P := (· ≠ '\r')) (by simp)
      (fun l hl d hd => ne_of_mem_of_not_mem hd (hclean l hl).2) _ hmem
    exact hclass rfl
  have hsource : s.extract (unlines ls) = (unlines kept, s') := by
    rw [References.extract, Text.lines_unlines hlines fun l hl => (hclean l hl).1, hextract]
  have hleft : Text.lines (unlines kept) = kept :=
    Text.lines_unlines hkept fun l hl => (hclean l (hsub hl)).1
  rw [tokenize, List.isEmpty_eq_false_iff.mpr hne, hreturns, hsource]
  simp [hleft]

/-- Splitting a text of lines gives the answer that the lines give which define nothing. -/
theorem answer_tokenize_of_extractLines (c : Config) {s s' : References} {ls kept : List Text}
    (hne : unlines ls ≠ []) (hclean : ∀ l ∈ ls, '\n' ∉ l ∧ '\r' ∉ l)
    (hextract : s.extractLines false ls = (kept, s')) (hkept : kept ≠ []) (hsub : kept ⊆ ls) :
    (tokenize c (unlines ls) s).1.answer = (blocks c.structuredData kept).answer := by
  rw [tokenize_of_extractLines c hne hclean hextract hkept hsub, Report.answer_bind]
  cases (blocks c.structuredData kept).answer with
  | error f => rfl
  | ok bs => rfl

/-- A text of printable lines is split into the blocks of the lines that define nothing. -/
theorem tokenize_unlines (c : Config) {s s' : References} {ls kept : List Text} {bs : List Block}
    (hne : unlines ls ≠ []) (hprintable : ∀ l ∈ ls, ∀ d ∈ l, isPrintable d = true)
    (hextract : s.extractLines false ls = (kept, s')) (hkept : kept ≠ []) (hsub : kept ⊆ ls)
    (hblocks : blocks c.structuredData kept = pure bs) :
    tokenize c (unlines ls) s =
      (do Report.log (.tokenized bs.length s'.links.length s'.notes.length); pure bs, s') := by
  have hclean : ∀ l ∈ ls, '\n' ∉ l ∧ '\r' ∉ l := fun l hl =>
    ⟨not_mem_of_printable (by decide) (hprintable l hl),
      not_mem_of_printable (by decide) (hprintable l hl)⟩
  rw [tokenize_of_extractLines c hne hclean hextract hkept hsub, hblocks, pure_bind]

/-- The text of a canonical document is split into its blocks, and no definition is found in it. -/
theorem tokenize_text (c : Config) (s : References) {bs : List Block} (h : isDocument bs = true) :
    tokenize c (text bs) s =
      (do Report.log (.tokenized bs.length s.links.length s.notes.length); pure bs, s) := by
  have hframed := framed_of_isDocument h
  simp only [isDocument, Bool.and_eq_true] at h
  have hne : unlines (lines bs) ≠ [] := by
    intro htext
    have hhead := head?_unlines hframed.opens
    rw [htext] at hhead
    cases hhead
  exact tokenize_unlines c hne hframed.printable (extractLines_lines s h.2) hframed.ne_nil
    (List.Subset.refl _) (blocksFrom_lines c.structuredData bs h.2 0)

end Markdown.Canonical
