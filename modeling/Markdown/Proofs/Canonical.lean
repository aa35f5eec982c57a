import Markdown.Document
import Markdown.FromHtml.Block
import Markdown.Proofs.Characters
import Markdown.Proofs.Lines
import Markdown.Proofs.Search
import Mathlib.Algebra.Group.Int.Defs

/-!
# Canonical documents

The Markdown that the conversion from HTML writes: `Canonical.lines` gives the lines of a list of
blocks in this form, and `Canonical.isDocument` tells which blocks have one. Their texts are plain, so
no inline rule finds anything in them; what is left is the structure of blocks. Blocks stand one
empty line apart, and neighbours that would run together are ruled out.
-/

namespace Markdown.Canonical

open Text

/-! ### Texts -/

/-- A character of a plain text. -/
def isTextChar (c : Char) : Bool :=
  isAsciiLetter c || isAsciiDigit c || c = ' '

/-- A plain text: letters, digits and spaces, with a letter at the start and no space at the end. -/
def isPlain (t : Text) : Bool :=
  t.head?.any isAsciiLetter && t.all isTextChar && t.getLast? ≠ some ' '

/-- A printable character of ASCII. -/
def isPrintable (c : Char) : Bool :=
  ' ' ≤ c && c ≤ '~'

/-- The name of a language: a lower-case word, or nothing. -/
def isLanguage (t : Text) : Bool :=
  t.all fun c => 'a' ≤ c && c ≤ 'z'

/-- A line of code: printable, not blank, and not the end of the code. -/
def isCodeLine (line : Text) : Bool :=
  line.all isPrintable && !allBlank line && !Line.isFence line

/-! ### Lines -/

/-- The mark before an entry. -/
def mark (ordered : Bool) (number : Nat) : Text :=
  if ordered then ofNat number ++ ['.', ' '] else ['-', ' ']

/-- The box before the text of an entry. -/
def box (checked : Option Bool) : Text :=
  match checked with
  | none => []
  | some true => "[x] ".toList
  | some false => "[ ] ".toList

/-- The first line of an entry. -/
def markerLine (ordered : Bool) (number : Nat) (checked : Option Bool) (content : Text) : Text :=
  mark ordered number ++ (box checked ++ content)

/-- A line one level deeper in a list. -/
def inset (line : Text) : Text :=
  ' ' :: ' ' :: line

/-- A line in a quote. -/
def quoted (line : Text) : Text :=
  if line.isEmpty then ['>'] else '>' :: ' ' :: line

/-- The fence of code. -/
def fence : Text :=
  List.replicate 3 '\x60'

/-- The lines of a term with its definitions. -/
def definitionLines (d : Definition) : List Text :=
  d.term :: d.meanings.map fun m => ':' :: ' ' :: m

mutual

/-- The lines of a block. -/
def blockLines : Block → List Text
  | .heading level content => [List.replicate level.toNat '#' ++ ' ' :: content]
  | .paragraph content => [content]
  | .rule => ["---".toList]
  | .code language content _ => (fence ++ language) :: (Text.lines content ++ [fence])
  | .list ordered start items => itemsLines ordered start.toNat items
  | .table headers alignments rows =>
    FromHtml.pipeRow headers :: FromHtml.pipeRow (alignments.map FromHtml.separator) ::
      rows.map FromHtml.pipeRow
  | .definitions items => items.flatMap definitionLines
  | .quote _ children => (lines children).map quoted
  | .footnote _ _ => []
  | .foreign _ => []

/-- The lines of blocks that stand one empty line apart. -/
def lines : List Block → List Text
  | [] => []
  | [b] => blockLines b
  | b :: c :: r => blockLines b ++ [] :: lines (c :: r)

/-- The lines of an entry with a number. -/
def itemLines (ordered : Bool) (number : Nat) : Item → List Text
  | .mk content checked children =>
    markerLine ordered number checked content :: (childLines children).map inset

/-- The lines of entries, numbered from the given number on. -/
def itemsLines (ordered : Bool) (number : Nat) : List Item → List Text
  | [] => []
  | i :: r => itemLines ordered number i ++ itemsLines ordered (number + 1) r

/-- The lines of the lists in an entry. -/
def childLines : List Block → List Text
  | [] => []
  | b :: r => blockLines b ++ childLines r

end

/-- The text of a document. -/
def text (bs : List Block) : Text :=
  unlines (lines bs)

/-! ### Blocks with a canonical form -/

/-- Whether two neighbours stay apart. Lists of one kind and definition lists run together across an
empty line, and so does a definition list with a fence in front of what looks like a definition. -/
def areApart : Block → Block → Bool
  | .list ordered _ _, .list ordered' _ _ => ordered != ordered'
  | .definitions _, .definitions _ => false
  | .definitions _, .code _ content _ =>
    !((Text.lines content).head?.bind Glossary.meaning?).isSome
  | _, _ => true

/-- Whether a block stays apart from the first of those behind it. -/
def standsApart (b : Block) : List Block → Bool
  | [] => true
  | c :: _ => areApart b c

/-- Whether a block is a list. -/
def isList : Block → Bool
  | .list .. => true
  | _ => false

/-- Whether entries can be numbered from a start: the first number has at most nine digits, and all
have at most as many as a numeral may have. Bullets count from one. -/
def areNumbers (ordered : Bool) (start : Int) (count : Nat) : Bool :=
  if ordered then
    0 ≤ start && start < 10 ^ 9 &&
      (ofNat (start.toNat + (count - 1))).length ≤ FromHtml.maxListDigits
  else start = 1

/-- A row of a table. -/
def isRow (cells : List Text) : Bool :=
  !cells.isEmpty && cells.all isPlain

/-- A term with its definitions. -/
def isDefinition (d : Definition) : Bool :=
  isPlain d.term && !d.meanings.isEmpty && d.meanings.all isPlain

mutual

/-- A block with a canonical form. -/
def isBlock : Block → Bool
  | .heading level content => 1 ≤ level && level ≤ 6 && isPlain content
  | .paragraph content => isPlain content
  | .rule => true
  | .code language content detected =>
    isLanguage language && (Text.lines content).all isCodeLine && !detected
  | .list ordered start items =>
    areNumbers ordered start items.length && !items.isEmpty && areItems ordered items
  | .table headers alignments rows =>
    isRow headers && alignments.length = headers.length && rows.all isRow
  | .definitions items => !items.isEmpty && items.all isDefinition
  | .quote content children => content = text children && !children.isEmpty && areBlocks children
  | .footnote _ _ => false
  | .foreign _ => false

/-- Blocks with a canonical form, each of which stays apart from the next one. -/
def areBlocks : List Block → Bool
  | [] => true
  | b :: r => isBlock b && standsApart b r && areBlocks r

/-- An entry with a canonical form. Only bullets have boxes, and entries hold lists only. -/
def isItem (ordered : Bool) : Item → Bool
  | .mk content checked children =>
    isPlain content && (checked.isNone || !ordered) && children.all isList && areBlocks children

/-- Entries with a canonical form. -/
def areItems (ordered : Bool) : List Item → Bool
  | [] => true
  | i :: r => isItem ordered i && areItems ordered r

end

/-- The blocks of a canonical document. -/
def isDocument (bs : List Block) : Bool :=
  !bs.isEmpty && areBlocks bs

theorem isDefinition_iff {d : Definition} :
    isDefinition d = true ↔
      isPlain d.term = true ∧ d.meanings ≠ [] ∧ d.meanings.all isPlain = true := by
  simp only [isDefinition, Bool.and_eq_true, Bool.not_eq_true', List.isEmpty_eq_false_iff, and_assoc]

theorem isRow_iff {cells : List Text} :
    isRow cells = true ↔ cells ≠ [] ∧ ∀ t ∈ cells, isPlain t = true := by
  simp only [isRow, Bool.and_eq_true, Bool.not_eq_true', List.isEmpty_eq_false_iff,
    List.all_eq_true]

theorem areBlocks_cons {b : Block} {r : List Block} :
    areBlocks (b :: r) = true ↔
      isBlock b = true ∧ standsApart b r = true ∧ areBlocks r = true := by
  simp only [areBlocks, Bool.and_eq_true, and_assoc]

theorem areItems_cons {ordered : Bool} {i : Item} {r : List Item} :
    areItems ordered (i :: r) = true ↔ isItem ordered i = true ∧ areItems ordered r = true := by
  simp only [areItems, Bool.and_eq_true]

theorem isBlock_of_mem {bs : List Block} (h : areBlocks bs = true) :
    ∀ b ∈ bs, isBlock b = true := by
  induction bs with
  | nil => simp
  | cons b r ih =>
    rw [areBlocks_cons] at h
    exact List.forall_mem_cons.mpr ⟨h.1, ih h.2.2⟩

/-- The parts of an entry with a canonical form. -/
theorem isItem_mk {ordered : Bool} {content : Text} {checked : Option Bool} {children : List Block} :
    isItem ordered (.mk content checked children) = true ↔
      isPlain content = true ∧ (checked.isNone || !ordered) = true ∧
        children.all isList = true ∧ areBlocks children = true := by
  simp only [isItem, Bool.and_eq_true, and_assoc]

/-! ### Characters -/

theorem isPrintable_of_isTextChar {c : Char} (h : isTextChar c = true) : isPrintable c = true := by
  simp [isTextChar, isAsciiLetter, isAsciiDigit, isPrintable, Char.le_def, ← Char.toNat_inj,
    UInt32.le_iff_toNat_le] at h ⊢
  omega

theorem isPrintable_of_all {s : Text} {c : Char} (h : s.all isPrintable = true) (hc : c ∈ s) :
    isPrintable c = true :=
  List.all_eq_true.mp h c hc

/-- The only printable blank is the space. -/
theorem eq_space_of_isBlank {c : Char} (h : isPrintable c = true) (hblank : isBlank c = true) :
    c = ' ' := by
  simp [isPrintable, isBlank, Char.le_def, ← Char.toNat_inj, UInt32.le_iff_toNat_le] at h hblank ⊢
  omega

/-! ### The characters of plain texts -/

variable {t : Text} {c : Char}

theorem exists_cons_of_isPlain (h : isPlain t = true) : ∃ c r, t = c :: r ∧ isAsciiLetter c = true := by
  cases t with
  | nil => simp [isPlain] at h
  | cons c r => exact ⟨c, r, rfl, by simp [isPlain] at h; exact h.1.1⟩

theorem isTextChar_of_mem (h : isPlain t = true) (hc : c ∈ t) : isTextChar c = true := by
  simp only [isPlain, Bool.and_eq_true, List.all_eq_true] at h
  exact h.1.2 c hc

theorem not_mem_of_isPlain (h : isPlain t = true) (hc : isTextChar c = false) : c ∉ t := by
  intro hmem
  rw [isTextChar_of_mem h hmem] at hc
  cases hc

theorem isPrintable_of_mem (h : isPlain t = true) (hc : c ∈ t) : isPrintable c = true :=
  isPrintable_of_isTextChar (isTextChar_of_mem h hc)

theorem isPrintable_of_isAsciiLetter (h : isAsciiLetter c = true) : isPrintable c = true :=
  isPrintable_of_isTextChar (by simp [isTextChar, h])

theorem isBlank_of_isAsciiLetter (h : isAsciiLetter c = true) : isBlank c = false := by
  rw [Bool.eq_false_iff]
  intro hblank
  obtain rfl := eq_space_of_isBlank (isPrintable_of_isAsciiLetter h) hblank
  cases h

theorem isBlank_of_isAsciiDigit (h : isAsciiDigit c = true) : isBlank c = false := by
  rw [Bool.eq_false_iff]
  intro hblank
  obtain rfl := eq_space_of_isBlank (isPrintable_of_isTextChar (by simp [isTextChar, h])) hblank
  cases h

theorem ne_nil_of_isPlain (h : isPlain t = true) : t ≠ [] := by
  rintro rfl
  cases h

theorem visible_getLast_of_isPlain (h : isPlain t = true) : t.getLast?.any (!isBlank ·) = true := by
  obtain ⟨a, r, rfl, -⟩ := exists_cons_of_isPlain h
  obtain ⟨z, hz⟩ : ∃ z, (a :: r).getLast? = some z := ⟨_, List.getLast?_cons⟩
  have hspace : z ≠ ' ' := by
    rintro rfl
    simp [isPlain, hz] at h
  rw [hz, Option.any_some, Bool.not_eq_true', Bool.eq_false_iff]
  intro hblank
  exact hspace (eq_space_of_isBlank (isPrintable_of_mem h (List.mem_of_getLast? hz)) hblank)

/-! ### What the lines are made of -/

/-- Whether some lines begin with a character that is not blank. -/
def opens (ls : List Text) : Bool :=
  (ls.head?.bind List.head?).any (!isBlank ·)

/-- Whether some lines end with a character that is not blank. -/
def closes (ls : List Text) : Bool :=
  (ls.getLast?.bind List.getLast?).any (!isBlank ·)

theorem closes_append (ls : List Text) {more : List Text} (h : closes more = true) :
    closes (ls ++ more) = true := by
  cases hlast : more.getLast? with
  | none => simp [closes, hlast] at h
  | some l => simpa [closes, List.getLast?_append, hlast] using h

/-- Printable lines with no blanks around them. -/
structure Framed (ls : List Text) : Prop where
  /-- They begin with a character that is not blank. -/
  opens : opens ls = true
  /-- They end with a character that is not blank. -/
  closes : closes ls = true
  /-- Their characters are printable. -/
  printable : ∀ l ∈ ls, ∀ c ∈ l, isPrintable c = true

theorem Framed.ne_nil {ls : List Text} (h : Framed ls) : ls ≠ [] := by
  rintro rfl
  cases h.opens

/-- More lines behind framed ones. -/
theorem Framed.append {ls more : List Text} (h : Framed ls)
    (hprintable : ∀ l ∈ more, ∀ c ∈ l, isPrintable c = true)
    (hcloses : more = [] ∨ Canonical.closes more = true) : Framed (ls ++ more) := by
  refine ⟨?_, ?_, ?_⟩
  · have hopens := h.opens
    cases ls with
    | nil => cases hopens
    | cons l r => exact hopens
  · rcases hcloses with rfl | hcloses
    · simpa using h.closes
    · exact closes_append ls hcloses
  · intro l hl
    rcases List.mem_append.mp hl with hl | hl
    · exact h.printable l hl
    · exact hprintable l hl

/-- A plain text behind printable characters. -/
theorem framed_behind (before : Text) (h : isPlain t = true)
    (hprintable : ∀ c ∈ before, isPrintable c = true)
    (hopens : before.head?.all (!isBlank ·) = true) : Framed [before ++ t] := by
  obtain ⟨a, r, rfl, ha⟩ := exists_cons_of_isPlain h
  have hlast := visible_getLast_of_isPlain h
  refine ⟨?_, ?_, ?_⟩
  · cases before with
    | nil => simp [Canonical.opens, isBlank_of_isAsciiLetter ha]
    | cons c before => simpa [Canonical.opens] using hopens
  · simpa [Canonical.closes, List.getLast?_append, List.getLast?_cons] using hlast
  · intro l hl c hc
    rw [List.mem_singleton.mp hl] at hc
    rcases List.mem_append.mp hc with hc | hc
    · exact hprintable c hc
    · exact isPrintable_of_mem h hc

/-- Lines each of which is framed. -/
theorem framed_of_forall {ls : List Text} (hne : ls ≠ []) (h : ∀ l ∈ ls, Framed [l]) :
    Framed ls := by
  induction ls with
  | nil => exact absurd rfl hne
  | cons l r ih =>
    by_cases hr : r = []
    · subst hr
      exact h l (List.mem_singleton_self l)
    · have hrest := ih hr fun k hk => h k (List.mem_cons_of_mem l hk)
      exact (h l List.mem_cons_self).append hrest.printable (.inr hrest.closes)

theorem framed_pipeRow {cells : List Text} (h : ∀ t ∈ cells, ∀ c ∈ t, isPrintable c = true) :
    Framed [FromHtml.pipeRow cells] := by
  refine ⟨rfl, ?_, ?_⟩
  · have hlast : (FromHtml.pipeRow cells).getLast? = some '|' := by
      rw [FromHtml.pipeRow, List.getLast?_append]
      rfl
    simp [Canonical.closes, hlast]
    decide
  · have hcells := forall_mem_intercalate (P := fun c => isPrintable c = true)
      (fun c hc => isPrintable_of_all (s := " | ".toList) (by decide) hc) h
    intro l hl c hc
    rw [List.mem_singleton.mp hl, FromHtml.pipeRow, List.mem_append, List.mem_append] at hc
    rcases hc with (hc | hc) | hc
    · exact isPrintable_of_all (s := "| ".toList) (by decide) hc
    · exact hcells c hc
    · exact isPrintable_of_all (s := " |".toList) (by decide) hc

/-- Lines of a list one level deeper. -/
theorem closes_map_inset {ls : List Text} (h : closes ls = true) :
    closes (ls.map inset) = true := by
  rw [closes, List.getLast?_map]
  cases hlast : ls.getLast? with
  | none => simp [closes, hlast] at h
  | some l =>
    cases l with
    | nil => simp [closes, hlast] at h
    | cons c r => simpa [closes, hlast, inset, List.getLast?_cons] using h

/-- Lines of a list one level deeper behind framed ones. -/
theorem Framed.append_inset {ls more : List Text} (h : Framed ls) (hmore : Framed more) :
    Framed (ls ++ more.map inset) := by
  apply h.append
  · intro l hl c hc
    obtain ⟨k, hk, rfl⟩ := List.mem_map.mp hl
    rcases List.mem_cons.mp hc with rfl | hc
    · rfl
    · rcases List.mem_cons.mp hc with rfl | hc
      · rfl
      · exact hmore.printable k hk c hc
  · exact .inr (closes_map_inset hmore.closes)

/-- Lines in a quote. -/
theorem Framed.quoted {ls : List Text} (h : Framed ls) : Framed (ls.map quoted) := by
  have hprintable := h.printable
  have hopens := h.opens
  have hcloses := h.closes
  refine ⟨?_, ?_, ?_⟩
  · cases ls with
    | nil => cases hopens
    | cons l r => cases l <;> rfl
  · rw [Canonical.closes, List.getLast?_map]
    cases hlast : ls.getLast? with
    | none => simp [Canonical.closes, hlast] at hcloses
    | some l =>
      cases l with
      | nil => rfl
      | cons c r => simpa [Canonical.closes, hlast, Canonical.quoted, List.getLast?_cons] using hcloses
  · intro l hl c hc
    obtain ⟨k, hk, rfl⟩ := List.mem_map.mp hl
    unfold Canonical.quoted at hc
    split at hc
    · obtain rfl := List.mem_singleton.mp hc
      rfl
    · rcases List.mem_cons.mp hc with rfl | hc
      · rfl
      · rcases List.mem_cons.mp hc with rfl | hc
        · rfl
        · exact hprintable k hk c hc

/-! ### The lines of blocks -/

theorem framed_markerLine (ordered : Bool) (number : Nat) (checked : Option Bool)
    (h : isPlain t = true) : Framed [markerLine ordered number checked t] := by
  have hbox : ∀ c ∈ box checked, isPrintable c = true := by
    rcases checked with _ | _ | _ <;> exact fun c hc => isPrintable_of_all (by decide) hc
  rw [markerLine, ← List.append_assoc]
  apply framed_behind _ h
  · intro c hc
    rcases List.mem_append.mp hc with hc | hc
    · cases ordered with
      | false => exact isPrintable_of_all (s := ['-', ' ']) (by decide) hc
      | true =>
        rcases List.mem_append.mp hc with hc | hc
        · exact isPrintable_of_isTextChar (by simp [isTextChar, isAsciiDigit_of_mem_ofNat hc])
        · exact isPrintable_of_all (s := ['.', ' ']) (by decide) hc
    · exact hbox c hc
  · cases ordered with
    | false => rfl
    | true =>
      obtain ⟨d, r, hd, hdigit⟩ := exists_cons_ofNat number
      simp [mark, hd, isBlank_of_isAsciiDigit hdigit]

theorem framed_heading {level : Nat} (hlevel : 1 ≤ level) (h : isPlain t = true) :
    Framed [List.replicate level '#' ++ ' ' :: t] := by
  have hline : List.replicate level '#' ++ ' ' :: t = (List.replicate level '#' ++ [' ']) ++ t := by
    simp
  rw [hline]
  apply framed_behind _ h
  · intro c hc
    rcases List.mem_append.mp hc with hc | hc
    · rw [List.eq_of_mem_replicate hc]
      rfl
    · rw [List.mem_singleton.mp hc]
      rfl
  · obtain ⟨n, rfl⟩ : ∃ n, level = n + 1 := ⟨level - 1, by omega⟩
    rfl

/-- A word of printable characters. -/
theorem framed_word (hne : t ≠ []) (h : ∀ c ∈ t, isPrintable c = true ∧ c ≠ ' ') : Framed [t] := by
  have hvisible : ∀ c ∈ t, (!isBlank c) = true := fun c hc => by
    rw [Bool.not_eq_true', Bool.eq_false_iff]
    exact fun hblank => (h c hc).2 (eq_space_of_isBlank (h c hc).1 hblank)
  obtain ⟨a, r, rfl⟩ := List.exists_cons_of_ne_nil hne
  obtain ⟨z, hz⟩ : ∃ z, (a :: r).getLast? = some z := ⟨_, List.getLast?_cons⟩
  refine ⟨hvisible a List.mem_cons_self, ?_, ?_⟩
  · simpa [Canonical.closes, hz] using hvisible z (List.mem_of_getLast? hz)
  · intro l hl c hc
    rw [List.mem_singleton.mp hl] at hc
    exact (h c hc).1

theorem isAsciiLetter_of_isLanguage (h : isLanguage t = true) (hc : c ∈ t) :
    isAsciiLetter c = true := by
  have := List.all_eq_true.mp h c hc
  simp only [Bool.and_eq_true] at this
  simp [isAsciiLetter, this]

theorem framed_code {language content : Text} (hlanguage : isLanguage language = true)
    (hcontent : (Text.lines content).all isCodeLine = true) :
    Framed ((fence ++ language) :: (Text.lines content ++ [fence])) := by
  have hopening : Framed [fence ++ language] := by
    apply framed_word (by simp [fence])
    intro c hc
    rcases List.mem_append.mp hc with hc | hc
    · rw [List.eq_of_mem_replicate hc]
      decide
    · have hletter := isAsciiLetter_of_isLanguage hlanguage hc
      refine ⟨isPrintable_of_isAsciiLetter hletter, ?_⟩
      rintro rfl
      cases hletter
  have hlines : ∀ l ∈ Text.lines content, ∀ c ∈ l, isPrintable c = true := by
    intro l hl c hc
    have := List.all_eq_true.mp hcontent l hl
    simp only [isCodeLine, Bool.and_eq_true] at this
    exact isPrintable_of_all this.1.1 hc
  show Framed ([fence ++ language] ++ (Text.lines content ++ [fence]))
  apply hopening.append
  · intro l hl
    rcases List.mem_append.mp hl with hl | hl
    · exact hlines l hl
    · rw [List.mem_singleton.mp hl]
      exact fun c hc => isPrintable_of_all (s := fence) (by decide) hc
  · exact .inr (closes_append (Text.lines content) rfl)

theorem framed_table {headers : List Text} {alignments : List (Option Alignment)}
    {rows : List (List Text)}
    (h : ∀ row ∈ headers :: rows, ∀ t ∈ row, ∀ c ∈ t, isPrintable c = true) :
    Framed (blockLines (.table headers alignments rows)) := by
  have hseparators : Framed [FromHtml.pipeRow (alignments.map FromHtml.separator)] := by
    apply framed_pipeRow
    intro t ht
    obtain ⟨a, -, rfl⟩ := List.mem_map.mp ht
    rcases a with _ | _ | _ | _ <;> exact fun c hc => isPrintable_of_all (by decide) hc
  rw [blockLines]
  apply framed_of_forall (by simp)
  intro l hl
  rcases List.mem_cons.mp hl with rfl | hl
  · exact framed_pipeRow (h headers List.mem_cons_self)
  · rcases List.mem_cons.mp hl with rfl | hl
    · exact hseparators
    · obtain ⟨cells, hcells, rfl⟩ := List.mem_map.mp hl
      exact framed_pipeRow (h cells (List.mem_cons_of_mem headers hcells))

theorem framed_definitions {items : List Definition} (hne : items ≠ [])
    (h : items.all isDefinition = true) : Framed (blockLines (.definitions items)) := by
  rw [blockLines]
  apply framed_of_forall
  · obtain ⟨d, r, rfl⟩ := List.exists_cons_of_ne_nil hne
    simp [definitionLines]
  · intro l hl
    obtain ⟨d, hd, hl⟩ := List.mem_flatMap.mp hl
    have hitem := List.all_eq_true.mp h d hd
    simp only [isDefinition, Bool.and_eq_true, List.all_eq_true] at hitem
    rcases List.mem_cons.mp hl with rfl | hl
    · exact framed_behind [] hitem.1.1 (by simp) rfl
    · obtain ⟨m, hm, rfl⟩ := List.mem_map.mp hl
      exact framed_behind [':', ' '] (hitem.2 m hm)
        (fun c hc => isPrintable_of_all (by decide) hc) rfl

end Markdown.Canonical
