import Markdown.Proofs.Characters
import Markdown.Proofs.Listing
import Markdown.Proofs.Plain

/-!
# Reading printed lists

A list is printed one line per entry, two spaces deeper per level: a bullet or the next number, the box
if there is one, and the text; behind an entry stand the lists in it. `isTree` tells which lists can be
read back from these lines: entries have texts of one line that do not look like a box, and two lists
side by side in an entry are of different kinds. `recognise_blockLines` says that they are read back
with all that is in them. This is an induction over the entries and over the lists in them, at any
column and in front of any lines at which the list ends: what follows a nested list is either a list of
the other kind or a line further to the left.
-/

namespace Markdown.Canonical

open Text Listing

variable {content : Text} {c : Char}

/-! ### List trees -/

/-- A text that an entry can have: one line without blanks around it. -/
def isEntryText (t : Text) : Bool :=
  '\n' ∉ t && trim t = t

/-- Whether the box of an entry can be told from its text. Only bullets have boxes, and a bullet without
one has a text that does not begin like one. -/
def isBoxed (ordered : Bool) (checked : Option Bool) (content : Text) : Bool :=
  if ordered then checked.isNone else checked.isSome || (Line.taskBox? content).isNone

/-- Whether a list can be numbered from a start: the number has no more digits than are read. Bullets
have no numbers. -/
def isStart (ordered : Bool) (start : Int) : Bool :=
  !ordered || (0 ≤ start && (ofNat start.toNat).length ≤ Json.maxDigits)

mutual

/-- A list that can be read back from its lines. -/
def isTree : Block → Bool
  | .list ordered start items => isStart ordered start && !items.isEmpty && areTreeItems ordered items
  | _ => false

/-- Lists side by side in an entry. -/
def areTrees : List Block → Bool
  | [] => true
  | b :: r => isTree b && standsApart b r && areTrees r

/-- An entry of such a list. -/
def isTreeItem (ordered : Bool) : Item → Bool
  | .mk content checked children =>
    isEntryText content && isBoxed ordered checked content && areTrees children

/-- Entries of such a list. -/
def areTreeItems (ordered : Bool) : List Item → Bool
  | [] => true
  | i :: r => isTreeItem ordered i && areTreeItems ordered r

end

mutual

/-- A list as it is read: bullets count from one, at all levels. -/
def recount : Block → Block
  | .list ordered start items => .list ordered (if ordered then start else 1) (recountItems items)
  | b => b

/-- Blocks in which bullets count from one. -/
def recountAll : List Block → List Block
  | [] => []
  | b :: r => recount b :: recountAll r

/-- An entry in which bullets count from one. -/
def recountItem : Item → Item
  | .mk content checked children => .mk content checked (recountAll children)

/-- Entries in which bullets count from one. -/
def recountItems : List Item → List Item
  | [] => []
  | i :: r => recountItem i :: recountItems r

end

theorem isEntryText_iff {t : Text} : isEntryText t = true ↔ '\n' ∉ t ∧ trim t = t := by
  simp only [isEntryText, Bool.and_eq_true, decide_eq_true_eq]

theorem areTrees_cons {b : Block} {r : List Block} :
    areTrees (b :: r) = true ↔ isTree b = true ∧ standsApart b r = true ∧ areTrees r = true := by
  simp only [areTrees, Bool.and_eq_true, and_assoc]

theorem areTreeItems_cons {ordered : Bool} {i : Item} {r : List Item} :
    areTreeItems ordered (i :: r) = true ↔
      isTreeItem ordered i = true ∧ areTreeItems ordered r = true := by
  simp only [areTreeItems, Bool.and_eq_true]

theorem isTreeItem_mk {ordered : Bool} {checked : Option Bool} {children : List Block} :
    isTreeItem ordered (.mk content checked children) = true ↔
      isEntryText content = true ∧ isBoxed ordered checked content = true ∧
        areTrees children = true := by
  simp only [isTreeItem, Bool.and_eq_true, and_assoc]

/-- A list that can be read back has a first entry. -/
theorem exists_entry_of_isTree {b : Block} (h : isTree b = true) :
    ∃ ordered start content checked children r,
      b = .list ordered start (.mk content checked children :: r) ∧ isStart ordered start = true ∧
      isTreeItem ordered (.mk content checked children) = true ∧ areTreeItems ordered r = true := by
  cases b with
  | list ordered start items =>
    cases items with
    | nil => simp [isTree] at h
    | cons i r =>
      obtain ⟨content, checked, children⟩ := i
      simp only [isTree, areTreeItems, Bool.and_eq_true] at h
      exact ⟨_, _, _, _, _, _, rfl, h.1.1, h.2.1, h.2.2⟩
  | _ => cases h

/-! ### Lines with a marker -/

/-- A line at a column. -/
def shift (column : Nat) (line : Text) : Text :=
  List.replicate column ' ' ++ line

theorem shift_inset (column : Nat) (line : Text) :
    shift column (inset line) = shift (column + 2) line := by
  simp [shift, inset, List.replicate_succ']

theorem map_shift_zero (ls : List Text) : ls.map (shift 0) = ls := by
  rw [List.map_congr_left (g := id), List.map_id]
  intro l _
  rfl

theorem indent_shift (column : Nat) (r : Text) (hc : isBlank c = false) :
    Line.indent (shift column (c :: r)) = column := by
  induction column with
  | zero =>
    simp only [shift, List.replicate_zero, List.nil_append]
    unfold Line.indent
    split
    · next heq =>
      obtain ⟨rfl, -⟩ := List.cons.inj heq
      cases hc
    · next heq =>
      obtain ⟨rfl, -⟩ := List.cons.inj heq
      cases hc
    · rfl
  | succ column ih =>
    simp only [shift] at ih
    rw [shift, List.replicate_succ, List.cons_append, Line.indent, ih]

theorem trimStart_shift (column : Nat) (r : Text) (hc : isBlank c = false) :
    trimStart (shift column (c :: r)) = c :: r := by
  have hspaces : ∀ d ∈ List.replicate column ' ', isBlank d = true := by
    intro d hd
    rw [List.eq_of_mem_replicate hd]
    rfl
  rw [shift, trimStart_append (List.all_eq_true.mpr hspaces), trimStart_cons hc]

theorem allBlank_shift (column : Nat) (r : Text) (hc : isBlank c = false) :
    allBlank (shift column (c :: r)) = false := by
  simp [allBlank, shift, hc]

/-- The marker of an entry. -/
def markerOf (ordered : Bool) (number : Nat) (checked : Option Bool) (content : Text) :
    Line.Marker :=
  ⟨if ordered then some (ofNat number) else none, box checked ++ content⟩

@[simp] theorem ordered_markerOf (ordered : Bool) (number : Nat) (checked : Option Bool)
    (content : Text) : (markerOf ordered number checked content).ordered = ordered := by
  cases ordered <;> rfl

/-- The first character of a line with a marker. -/
theorem exists_cons_markerLine (ordered : Bool) (number : Nat) (checked : Option Bool)
    (content : Text) :
    ∃ c r, markerLine ordered number checked content = c :: r ∧
      (c = '-' ∧ r = ' ' :: (box checked ++ content) ∨ isAsciiDigit c = true) := by
  cases ordered with
  | false => exact ⟨'-', _, rfl, .inl ⟨rfl, rfl⟩⟩
  | true =>
    obtain ⟨d, r, hd, hdigit⟩ := exists_cons_ofNat number
    refine ⟨d, r ++ ['.', ' '] ++ (box checked ++ content), ?_, .inr hdigit⟩
    simp [markerLine, mark, hd]

theorem markerLine_eq_cons (ordered : Bool) (number : Nat) (checked : Option Bool)
    (content : Text) :
    ∃ c r, markerLine ordered number checked content = c :: r ∧ isBlank c = false := by
  obtain ⟨c, r, hline, ⟨rfl, -⟩ | hc⟩ := exists_cons_markerLine ordered number checked content
  · exact ⟨_, r, hline, rfl⟩
  · exact ⟨c, r, hline, isBlank_of_isAsciiDigit hc⟩

theorem indent_markerLine (column : Nat) (ordered : Bool) (number : Nat) (checked : Option Bool)
    (content : Text) :
    Line.indent (shift column (markerLine ordered number checked content)) = column := by
  obtain ⟨c, r, hline, hc⟩ := markerLine_eq_cons ordered number checked content
  rw [hline, indent_shift column r hc]

theorem body?_eq_some {t : Text} (h : '\n' ∉ t) : Line.body? t = some t := by
  have hdrop : t.dropWhile (· ≠ '\n') = [] := by
    rw [List.dropWhile_eq_nil_iff]
    intro d hd
    simpa using fun heq : d = '\n' => h (heq ▸ hd)
  rw [Line.body?, hdrop]

/-- What stands behind the mark of an entry. -/
theorem spaced?_body (checked : Option Bool) (h : isEntryText content = true) :
    Line.spaced? (' ' :: (box checked ++ content)) = some (box checked ++ content) := by
  obtain ⟨hcontent, htrim⟩ := isEntryText_iff.mp h
  have hline : '\n' ∉ box checked ++ content := by
    rw [List.mem_append, not_or]
    refine ⟨?_, hcontent⟩
    rcases checked with _ | _ | _ <;> decide
  have hstart : trimStart (box checked ++ content) = box checked ++ content := by
    rcases checked with _ | _ | _
    · cases content with
      | nil => rfl
      | cons c r => exact trimStart_cons (visible_head_of_trim htrim) r
    · rfl
    · rfl
  rw [Line.spaced?, hstart, body?_eq_some hline]
  rfl

theorem marker?_shift (column : Nat) (ordered : Bool) (number : Nat) (checked : Option Bool)
    (h : isEntryText content = true) :
    Line.marker? (shift column (markerLine ordered number checked content)) =
      some (markerOf ordered number checked content) := by
  obtain ⟨c, r, hline, hc⟩ := markerLine_eq_cons ordered number checked content
  rw [Line.marker?, hline, trimStart_shift column r hc, ← hline]
  cases ordered with
  | false =>
    have hdigits : (markerLine false number checked content).takeWhile isDigit = [] := rfl
    rw [hdigits]
    show (Line.spaced? (' ' :: (box checked ++ content))).map _ = _
    rw [spaced?_body checked h]
    rfl
  | true =>
    have hline : markerLine true number checked content =
        ofNat number ++ '.' :: ' ' :: (box checked ++ content) := by simp [markerLine, mark]
    have hdigits : (markerLine true number checked content).takeWhile isDigit = ofNat number := by
      rw [hline, List.takeWhile_append_of_pos fun d hd =>
        isDigit_of_isAsciiDigit (isAsciiDigit_of_mem_ofNat hd)]
      simp [show isDigit '.' = false by decide]
    have hsome : (ofNat number).isEmpty = false := by
      obtain ⟨d, r, hd, -⟩ := exists_cons_ofNat number
      rw [hd]
      rfl
    simp only [hdigits, hsome, Bool.false_eq_true, if_false]
    rw [hline, List.drop_left]
    simp [spaced?_body checked h, markerOf]

/-- The box of an entry is read, also if no text follows it. -/
theorem taskBox?_box (ticked : Bool) (h : isEntryText content = true) :
    Line.taskBox? (trim (box (some ticked) ++ content)) = some (ticked, content) := by
  obtain ⟨-, htrim⟩ := isEntryText_iff.mp h
  cases content with
  | nil => cases ticked <;> rfl
  | cons c r =>
    have hlast : (box (some ticked) ++ c :: r).getLast?.any (!isBlank ·) = true := by
      simpa [List.getLast?_append, List.getLast?_cons] using visible_getLast_of_trim htrim
    have hhead : (box (some ticked) ++ c :: r).head?.any (!isBlank ·) = true := by
      cases ticked <;> rfl
    have hself : trim (box (some ticked) ++ c :: r) = box (some ticked) ++ c :: r := by
      simpa using trim_append (s := []) hhead hlast rfl
    have hbody : Line.spaced? (' ' :: c :: r) = some (c :: r) := spaced?_body none h
    rw [hself]
    cases ticked with
    | false =>
      show (Line.spaced? (' ' :: c :: r)).map _ = _
      rw [hbody]
      rfl
    | true =>
      show (Line.spaced? (' ' :: c :: r)).map _ = _
      rw [hbody]
      rfl

/-- The entry that a marker opens. -/
theorem item_markerOf {ordered : Bool} (number : Nat) {checked : Option Bool}
    (hchecked : isBoxed ordered checked content = true) (h : isEntryText content = true) :
    item (markerOf ordered number checked content) = .mk content checked [] := by
  obtain ⟨-, htrim⟩ := isEntryText_iff.mp h
  cases ordered with
  | true =>
    obtain rfl : checked = none := by simpa [isBoxed] using hchecked
    simp [item, Line.Marker.ordered, markerOf, box, htrim]
  | false =>
    cases checked with
    | none =>
      have hbox : Line.taskBox? content = none := by simpa [isBoxed] using hchecked
      simp [item, Line.Marker.ordered, markerOf, box, htrim, hbox]
    | some ticked => simp [item, Line.Marker.ordered, markerOf, taskBox?_box ticked h]

/-- The number that the first marker gives to its list. -/
theorem start_markerOf {ordered : Bool} {start : Int} (h : isStart ordered start = true)
    (checked : Option Bool) (content : Text) :
    Listing.start (markerOf ordered start.toNat checked content) =
      pure (if ordered then start else 1) := by
  cases ordered with
  | false => rfl
  | true =>
    simp only [isStart, Bool.not_true, Bool.false_or, Bool.and_eq_true, decide_eq_true_eq] at h
    have hshort : ¬ Json.maxDigits < (ofNat start.toNat).length := by omega
    have hstart : (start.toNat : Int) = start := Int.toNat_of_nonneg h.1
    simp only [Listing.start, markerOf, if_true, if_neg hshort, digitsValue_ofNat, hstart]

/-! ### Where a list ends -/

/-- A list at a column ends before some lines. -/
def Ends (column : Nat) (ordered : Bool) (tail : List Text) : Prop :=
  ∀ done, done ≠ [] → collect column ordered done tail = pure ⟨done.reverse, 0⟩

/-- All lists to the right of a column end before some lines. -/
def EndsInner (column : Nat) (tail : List Text) : Prop :=
  ∀ inner, column < inner → ∀ ordered, Ends inner ordered tail

theorem ends_of_turn {column : Nat} {ordered : Bool} {line : Text} {rest : List Text}
    (h : turn column ordered false line rest = .stop) : Ends column ordered (line :: rest) := by
  intro done hdone
  rw [collect_cons, List.isEmpty_eq_false_iff.mpr hdone, h]

theorem ends_nil (column : Nat) (ordered : Bool) : Ends column ordered [] :=
  fun done _ => collect_nil column ordered done

/-- The turn at a line with a marker. -/
theorem turn_markerLine (base : Nat) (ordered fresh : Bool) (column number : Nat)
    (ordered' : Bool) (checked : Option Bool) (rest : List Text) (h : isEntryText content = true) :
    turn base ordered fresh (shift column (markerLine ordered' number checked content)) rest =
      if column < base then .stop
      else if !fresh && base + nesting ≤ column then .nest (markerOf ordered' number checked content)
      else if ordered' == ordered then .entry (markerOf ordered' number checked content)
      else .stop := by
  obtain ⟨c, r, hline, hc⟩ := markerLine_eq_cons ordered' number checked content
  have hmarker := marker?_shift column ordered' number checked h
  rw [hline] at hmarker ⊢
  simp only [turn, allBlank_shift column r hc, indent_shift column r hc, hmarker,
    ordered_markerOf, Bool.false_eq_true, if_false]

/-- An entry ends the lists to the right of it, and those of the other kind at its column. -/
theorem ends_markerLine {base column number : Nat} {ordered ordered' : Bool} {checked : Option Bool}
    {rest : List Text} (h : isEntryText content = true)
    (hbase : column < base ∨ column = base ∧ ordered' ≠ ordered) :
    Ends base ordered (shift column (markerLine ordered' number checked content) :: rest) := by
  apply ends_of_turn
  rw [turn_markerLine base ordered false column number ordered' checked rest h]
  rcases hbase with hlt | ⟨rfl, hne⟩
  · rw [if_pos hlt]
  · have hnested : ¬ column + 2 ≤ column := by omega
    simp [nesting, hne, hnested]

/-- Lists inside entries end before the next entry, or where the list itself ends. -/
theorem endsInner_itemsLines {column : Nat} {ordered : Bool} (number : Nat) {tail : List Text}
    (hinner : EndsInner column tail) {items : List Item} (h : areTreeItems ordered items = true) :
    EndsInner column ((itemsLines ordered number items).map (shift column) ++ tail) := by
  cases items with
  | nil => exact hinner
  | cons i r =>
    obtain ⟨content, checked, children⟩ := i
    rw [areTreeItems_cons, isTreeItem_mk] at h
    exact fun base hbase ordered' => ends_markerLine h.1.1 (.inl hbase)

/-- Lists inside the first of some lists end before the others, or where the entry ends. -/
theorem endsInner_childLines {column : Nat} {tail : List Text}
    (hinner : EndsInner column tail) {children : List Block} (h : areTrees children = true) :
    EndsInner (column + 2) ((childLines children).map (shift (column + 2)) ++ tail) := by
  cases children with
  | nil => exact fun base hbase => hinner base (by omega)
  | cons b r =>
    rw [areTrees_cons] at h
    obtain ⟨ordered, start, content, checked, children, items, rfl, -, hitem, -⟩ :=
      exists_entry_of_isTree h.1
    exact fun base hbase ordered' => ends_markerLine (isTreeItem_mk.mp hitem).1 (.inl hbase)

/-- A list in an entry ends before the next one, which is of the other kind, or where the entry
ends. -/
theorem ends_childLines {column : Nat} {ordered : Bool} {start : Int} {items : List Item}
    {tail : List Text} (hinner : EndsInner column tail) {children : List Block}
    (h : areTrees children = true)
    (hapart : standsApart (.list ordered start items) children = true) :
    Ends (column + 2) ordered ((childLines children).map (shift (column + 2)) ++ tail) := by
  cases children with
  | nil => exact hinner (column + 2) (by omega) ordered
  | cons b r =>
    rw [areTrees_cons] at h
    obtain ⟨ordered', start', content, checked, children, items', rfl, -, hitem, -⟩ :=
      exists_entry_of_isTree h.1
    have hne : ordered ≠ ordered' := bne_iff_ne.mp hapart
    exact ends_markerLine (isTreeItem_mk.mp hitem).1 (.inr ⟨rfl, hne.symm⟩)

/-! ### The entries of a list -/

theorem map_shift_itemsLines (column : Nat) (ordered : Bool) (number : Nat)
    (checked : Option Bool) (children : List Block) (r : List Item) :
    (itemsLines ordered number (.mk content checked children :: r)).map (shift column) =
      shift column (markerLine ordered number checked content) ::
        ((childLines children).map (shift (column + 2)) ++
          (itemsLines ordered (number + 1) r).map (shift column)) := by
  simp [itemsLines, itemLines, shift_inset]

@[simp] theorem length_itemsLines (ordered : Bool) (number : Nat) (checked : Option Bool)
    (children : List Block) (r : List Item) :
    (itemsLines ordered number (.mk content checked children :: r)).length =
      (childLines children).length + (itemsLines ordered (number + 1) r).length + 1 := by
  simp [itemsLines, itemLines]

@[simp] theorem behind_behind (e : Entries) (m n : Nat) : (e.behind m).behind n = e.behind (m + n) := by
  simp [Entries.behind, Nat.add_assoc]

/-- An entry at the column of a list is its next one. -/
theorem collect_entry {column number : Nat} {ordered : Bool} {done : List Item}
    {checked : Option Bool} {children : List Block} (rest : List Text) (hdone : done ≠ [])
    (h : isTreeItem ordered (.mk content checked children) = true) :
    collect column ordered done (shift column (markerLine ordered number checked content) :: rest) =
      (Entries.behind · 1) <$> collect column ordered (.mk content checked [] :: done) rest := by
  obtain ⟨hcontent, hchecked, -⟩ := isTreeItem_mk.mp h
  have hnested : ¬ column + nesting ≤ column := by simp [nesting]
  have hturn := turn_markerLine column ordered false column number ordered checked rest hcontent
  simp only [Nat.lt_irrefl, if_false, hnested, decide_false, Bool.and_false, Bool.false_eq_true,
    beq_self_eq_true, if_true] at hturn
  rw [collect_cons, List.isEmpty_eq_false_iff.mpr hdone, hturn]
  simp only [item_markerOf _ hchecked hcontent]
  rfl

/-- A list one level deeper than the latest entry is put into it. -/
theorem collect_nested {column : Nat} {ordered ordered' : Bool} {start : Int}
    {i : Item} {done items : List Item} {checked : Option Bool} {children : List Block}
    {more rest : List Text} (h : isTreeItem ordered' (.mk content checked children) = true)
    (hstart : isStart ordered' start = true)
    (hinner : collect (column + 2) ordered' [.mk content checked []] (more ++ rest) =
      pure ⟨items, more.length⟩) :
    collect column ordered (i :: done)
        (shift (column + 2) (markerLine ordered' start.toNat checked content) :: (more ++ rest)) =
      (Entries.behind · (more.length + 1)) <$>
        collect column ordered
          (i.addChild (.list ordered' (if ordered' then start else 1) items) :: done) rest := by
  obtain ⟨hcontent, hchecked, -⟩ := isTreeItem_mk.mp h
  have hturn := turn_markerLine column ordered false (column + 2) start.toNat ordered' checked
    (more ++ rest) hcontent
  rw [if_neg (by omega), if_pos (by simp [nesting])] at hturn
  rw [collect_cons, List.isEmpty_cons, hturn]
  simp only [start_markerOf hstart, indent_markerLine, ordered_markerOf,
    item_markerOf _ hchecked hcontent, hinner, pure_bind, List.drop_left, onLatest, list]
  rfl

mutual

/-- The entries of a list are read back once the first of them is open. -/
theorem collect_opened (column : Nat) (ordered : Bool) (number : Nat) (done : List Item)
    (tail : List Text) (hends : Ends column ordered tail) (hinner : EndsInner column tail) :
    (items : List Item) → areTreeItems ordered items = true → ∀ i r, items = i :: r →
      collect column ordered (.mk i.content i.checked [] :: done)
          ((childLines i.children).map (shift (column + 2)) ++
            ((itemsLines ordered number r).map (shift column) ++ tail)) =
        pure ⟨done.reverse ++ recountItems items,
          (childLines i.children).length + (itemsLines ordered number r).length⟩
  | [], _, _, _, heq => by cases heq
  | .mk content checked children :: r, h, _, _, heq => by
    obtain ⟨rfl, rfl⟩ := List.cons.inj heq
    rw [areTreeItems_cons, isTreeItem_mk] at h
    obtain ⟨⟨-, -, hchildren⟩, hr⟩ := h
    have hnext := endsInner_itemsLines number hinner hr
    simp only [Item.content, Item.checked, Item.children]
    rw [collect_childLines column ordered content checked [] done _ hnext children hchildren]
    have hmore := collect_opened column ordered (number + 1)
      (.mk content checked (recountAll children) :: done) tail hends hinner r hr
    cases r with
    | nil =>
      have := hends (.mk content checked (recountAll children) :: done) (by simp)
      simp [itemsLines, this, Entries.behind, recountItems, recountItem]
    | cons j r =>
      obtain ⟨content', checked', children'⟩ := j
      have hmore := hmore _ _ rfl
      rw [areTreeItems_cons] at hr
      rw [map_shift_itemsLines, List.cons_append, List.append_assoc,
        collect_entry _ (by simp) hr.1]
      simp only [Item.content, Item.checked, Item.children] at hmore
      simp [hmore, Entries.behind, recountItems, recountItem, Nat.add_comm]
termination_by items => sizeOf items

/-- The lists in an entry are read back before it goes on behind them. -/
theorem collect_childLines (column : Nat) (ordered : Bool) (content : Text)
    (checked : Option Bool) (before : List Block) (done : List Item) (tail : List Text)
    (hinner : EndsInner column tail) :
    (children : List Block) → areTrees children = true →
      collect column ordered (.mk content checked before :: done)
          ((childLines children).map (shift (column + 2)) ++ tail) =
        (Entries.behind · (childLines children).length) <$>
          collect column ordered (.mk content checked (before ++ recountAll children) :: done) tail
  | [], _ => by simp [childLines, Entries.behind, recountAll]
  | b :: r, h => by
    rw [areTrees_cons] at h
    obtain ⟨ordered', start, content', checked', children, items, hb, hstart, hitem, hitems⟩ :=
      exists_entry_of_isTree h.1
    have hends := ends_childLines hinner h.2.2 (hb ▸ h.2.1)
    have hrest := endsInner_childLines hinner h.2.2
    have hopened := collect_opened (column + 2) ordered' (start.toNat + 1) [] _ hends hrest
      (.mk content' checked' children :: items) (areTreeItems_cons.mpr ⟨hitem, hitems⟩) _ _ rfl
    have hmore := collect_childLines column ordered content checked (before ++ [recount b]) done tail
      hinner r h.2.2
    subst hb
    simp only [Item.content, Item.checked, Item.children, List.reverse_nil, List.nil_append] at hopened
    rw [childLines, blockLines, List.map_append, map_shift_itemsLines, List.cons_append,
      List.cons_append, List.append_assoc]
    rw [collect_nested hitem hstart (by rw [List.append_assoc]; simpa using hopened)]
    rw [recount] at hmore
    simp [Item.addChild, recountAll, recount, hmore, Nat.add_comm]
termination_by children => sizeOf children

end

/-- A list is read back in front of lines at which it ends. -/
theorem recognise_itemsLines (number : Nat) {ordered : Bool} {start : Int} {items : List Item}
    {line : Text} {rest tail : List Text} (h : isTree (.list ordered start items) = true)
    (hends : Ends 0 ordered tail) (hinner : EndsInner 0 tail)
    (hlines : itemsLines ordered start.toNat items ++ tail = line :: rest) :
    Listing.recognise number line rest =
      some ⟨recount (.list ordered start items),
        (itemsLines ordered start.toNat items).length - 1, []⟩ := by
  obtain ⟨ordered', start', content, checked, children, r, heq, hstart, hitem, hitems⟩ :=
    exists_entry_of_isTree h
  injection heq with hordered hstartEq hitemsEq
  subst hordered hstartEq hitemsEq
  obtain ⟨hcontent, hchecked, -⟩ := isTreeItem_mk.mp hitem
  have hread := collect_opened 0 ordered (start.toNat + 1) [] tail hends hinner
    (.mk content checked children :: r) (areTreeItems_cons.mpr ⟨hitem, hitems⟩) _ _ rfl
  have hshift := @map_shift_itemsLines content 0 ordered start.toNat checked children r
  rw [map_shift_zero] at hshift
  rw [hshift, List.cons_append] at hlines
  obtain ⟨rfl, rfl⟩ := List.cons.inj hlines
  simp only [Item.content, Item.checked, Item.children, map_shift_zero, List.reverse_nil,
    List.nil_append] at hread
  rw [Listing.recognise, Listing.recogniseFrom, marker?_shift 0 ordered _ checked hcontent]
  simp only [Option.getD_none, Nat.lt_irrefl, if_false, indent_markerLine,
    item_markerOf _ hchecked hcontent, ordered_markerOf, start_markerOf hstart, map_shift_zero,
    List.append_assoc, hread, length_itemsLines]
  simp [Listing.list, recount]

/-- **Printed lists are read back.** A list tree comes back from its lines with all its levels, texts,
boxes and numbers; bullets count from one. The list takes all the lines, and there is no fault. -/
theorem recognise_blockLines {b : Block} (h : isTree b = true) (number : Nat) :
    ∃ line rest, blockLines b = line :: rest ∧
      Listing.recognise number line rest = some ⟨recount b, rest.length, []⟩ := by
  obtain ⟨ordered, start, content, checked, children, r, rfl, -⟩ := exists_entry_of_isTree h
  have hlength := @length_itemsLines content ordered start.toNat checked children r
  rw [blockLines]
  cases hlines : itemsLines ordered start.toNat (.mk content checked children :: r) with
  | nil => simp [hlines] at hlength
  | cons line rest =>
    have hinner : EndsInner 0 [] := fun column _ ordered' => ends_nil column ordered'
    have hread := recognise_itemsLines number h (ends_nil 0 ordered) hinner
      (by rw [List.append_nil, hlines])
    rw [hlines] at hread
    exact ⟨line, rest, rfl, hread⟩

/-- A numbered list with bullets and numbers inside its first entry: a ticked box without text, and a
text that looks like an entry. -/
def nestedTree : Block :=
  .list true 7
    [.mk "a [b]".toList none
      [.list false 5 [.mk [] (some true) [], .mk "- c".toList none []],
        .list true 0 [.mk "d".toList none []]],
      .mk "e".toList none []]

theorem recognise_blockLines_nested :
    isTree nestedTree = true ∧
      Listing.recognise 0 "7. a [b]".toList
          ["  - [x] ".toList, "  - - c".toList, "  0. d".toList, "8. e".toList] =
        some ⟨recount nestedTree, 4, []⟩ := by
  have htree : isTree nestedTree = true := by decide
  have hlines : blockLines nestedTree = ["7. a [b]".toList, "  - [x] ".toList, "  - - c".toList,
    "  0. d".toList, "8. e".toList] := by decide
  obtain ⟨line, rest, hprinted, hread⟩ := recognise_blockLines htree 0
  obtain ⟨rfl, rfl⟩ := List.cons.inj (hlines.symm.trans hprinted)
  exact ⟨htree, hread⟩

end Markdown.Canonical
