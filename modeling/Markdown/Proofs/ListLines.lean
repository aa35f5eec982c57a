import Markdown.Proofs.PrintedListing
import Markdown.Proofs.WellFormed
import Mathlib.Data.List.Forall2

/-!
# The lines of a list

What becomes of the lines that a list takes. Blank lines vanish. A line with a marker opens an entry: it
is cut into indentation, marker, box and text (`Listing.Opens`), and the text is the first line of
the entry. Any other line stands behind the text of an earlier entry. `Listing.wordings` reads the tree
that comes out, an entry before the lists in it; `Listing.recogniseFrom_keeps_lines` says that the lines
with a marker are its entries, in order, and that the other lines are the further lines of its entries,
each of them once. The invariant of the loop is `Accounts`, which relates what was read before some
lines, the lines, and what is read after them.
-/

namespace Markdown

open Text

namespace Listing

variable {line content body : Text} {m : Line.Marker}

/-! ### Lines with a marker -/

/-- A marker: a bullet, or a number with a point or a parenthesis. -/
inductive IsMark : Bool → Text → Prop where
  /-- A bullet. -/
  | bullet {c : Char} (hc : c = '-' ∨ c = '*' ∨ c = '+') : IsMark false [c]
  /-- A number. -/
  | number {digits : Text} {c : Char} (hne : digits ≠ []) (hdigits : ∀ d ∈ digits, isDigit d = true)
      (hc : c = '.' ∨ c = ')') : IsMark true (digits ++ [c])

/-- What stands behind a marker is the box, if there is one, and the text. -/
inductive HasBox (ordered : Bool) : Option Bool → Text → Text → Prop where
  /-- There is no box. Behind a bullet, the text does not begin like one. -/
  | plain {content : Text} (h : ordered = true ∨ Line.taskBox? content = none) :
    HasBox ordered none content content
  /-- A box, with blanks between it and the text. -/
  | box {c : Char} {gap content : Text} (hordered : ordered = false)
      (hc : c = ' ' ∨ c = 'x' ∨ c = 'X') (hgap : allBlank gap = true)
      (hne : gap = [] → content = []) :
    HasBox ordered (some (c != ' ')) ('[' :: c :: ']' :: (gap ++ content)) content

/-- A line opens an entry: without its indentation, its marker, its box and the blanks around these,
the text of the entry is left. -/
def Opens (line : Text) (checked : Option Bool) (content : Text) : Prop :=
  ∃ ordered indentation mark gap body behind,
    line = indentation ++ (mark ++ (gap ++ (body ++ behind))) ∧ allBlank indentation = true ∧
    IsMark ordered mark ∧ gap ≠ [] ∧ allBlank gap = true ∧ HasBox ordered checked body content ∧
    trim content = content ∧ allBlank behind = true

theorem body?_eq_self {t b : Text} (h : '\n' ∉ t) (hb : Line.body? t = some b) : b = t := by
  rw [Canonical.body?_eq_some h] at hb
  exact (Option.some.inj hb).symm

theorem spaced?_eq_some {t : Text} (h : '\n' ∉ t) (hb : Line.spaced? t = some content) :
    ∃ gap, gap ≠ [] ∧ allBlank gap = true ∧ t = gap ++ content ∧
      content.head?.all (!isBlank ·) = true := by
  cases t with
  | nil => cases hb
  | cons c r =>
    obtain ⟨hc, hbody⟩ := Option.ite_none_right_eq_some.mp hb
    have hstart : '\n' ∉ trimStart r := fun hmem =>
      h (List.mem_cons_of_mem c ((List.dropWhile_sublist isBlank).subset hmem))
    obtain rfl := body?_eq_self hstart hbody
    refine ⟨c :: r.takeWhile isBlank, by simp, ?_, ?_, ?_⟩
    · exact List.all_eq_true.mpr (List.forall_mem_cons.mpr ⟨hc, fun d hd => of_mem_takeWhile hd⟩)
    · rw [List.cons_append, trimStart, trimStartBy, List.takeWhile_append_dropWhile]
    · cases hrest : trimStart r with
      | nil => rfl
      | cons d s => simp [not_of_dropWhile_eq_cons hrest]

/-- The parts of a line with a marker. -/
theorem marker?_eq_some (h : '\n' ∉ line) (hm : Line.marker? line = some m) :
    ∃ indentation mark gap, line = indentation ++ (mark ++ (gap ++ m.content)) ∧
      allBlank indentation = true ∧ IsMark m.ordered mark ∧ gap ≠ [] ∧ allBlank gap = true := by
  have hsplit : line = line.takeWhile isBlank ++ trimStart line :=
    (List.takeWhile_append_dropWhile (p := isBlank) (l := line)).symm
  have hblank : allBlank (line.takeWhile isBlank) = true :=
    List.all_eq_true.mpr fun d hd => of_mem_takeWhile hd
  have hstart : '\n' ∉ trimStart line := fun hmem =>
    h ((List.dropWhile_sublist isBlank).subset hmem)
  unfold Line.marker? at hm
  dsimp only at hm
  split at hm
  · split at hm
    · next c r hcr =>
      rw [hcr] at hstart hsplit
      obtain ⟨hc, hm⟩ := Option.ite_none_right_eq_some.mp hm
      obtain ⟨content, hcontent, rfl⟩ := Option.map_eq_some_iff.mp hm
      obtain ⟨gap, hne, hgap, rfl, -⟩ := spaced?_eq_some (List.not_mem_of_not_mem_cons hstart) hcontent
      refine ⟨_, [c], gap, hsplit, hblank, .bullet ?_, hne, hgap⟩
      simpa [or_assoc] using hc
    · cases hm
  · next hdigits =>
    split at hm
    · next c r hcr =>
      have hall := takeWhile_append_drop isDigit (trimStart line)
      rw [hcr] at hall
      rw [← hall] at hstart hsplit
      obtain ⟨hc, hm⟩ := Option.ite_none_right_eq_some.mp hm
      obtain ⟨content, hcontent, rfl⟩ := Option.map_eq_some_iff.mp hm
      have hr : '\n' ∉ r := fun hmem =>
        hstart (List.mem_append_right _ (List.mem_cons_of_mem c hmem))
      obtain ⟨gap, hne, hgap, rfl, -⟩ := spaced?_eq_some hr hcontent
      refine ⟨_, (trimStart line).takeWhile isDigit ++ [c], gap, ?_, hblank, .number ?_ ?_ ?_, hne,
        hgap⟩
      · simpa using hsplit
      · simpa using hdigits
      · exact fun d hd => of_mem_takeWhile hd
      · simpa using hc
    · cases hm

/-- The parts of a text with a box. -/
theorem taskBox?_eq_some {ticked : Bool} (h : '\n' ∉ body) (htrim : trim body = body)
    (hbox : Line.taskBox? body = some (ticked, content)) :
    HasBox false (some ticked) body content ∧ trim content = content := by
  unfold Line.taskBox? at hbox
  split at hbox
  · next c r =>
    obtain ⟨hc, hbox⟩ := Option.ite_none_right_eq_some.mp hbox
    have hmark : c = ' ' ∨ c = 'x' ∨ c = 'X' := by simpa [or_assoc] using hc
    split at hbox
    · next hr =>
      obtain ⟨rfl, rfl⟩ := Prod.mk.inj (Option.some.inj hbox)
      obtain rfl := List.isEmpty_iff.mp hr
      have hgap : allBlank [] = true := rfl
      exact ⟨.box rfl hmark hgap fun _ => rfl, rfl⟩
    · obtain ⟨text, htext, heq⟩ := Option.map_eq_some_iff.mp hbox
      obtain ⟨rfl, rfl⟩ := Prod.mk.inj heq
      have hr : '\n' ∉ r := fun hmem => h (by simp [hmem])
      obtain ⟨gap, hne, hgap, rfl, hhead⟩ := spaced?_eq_some hr htext
      refine ⟨.box rfl hmark hgap fun hnil => absurd hnil hne, ?_⟩
      cases text with
      | nil => rfl
      | cons d s =>
        have hlast := Canonical.visible_getLast_of_trim htrim
        have hsame : ('[' :: c :: ']' :: (gap ++ d :: s)).getLast? = (d :: s).getLast? := by
          simp [List.getLast?_cons, List.getLast?_append]
        rw [hsame] at hlast
        simpa using Canonical.trim_append (s := []) (by simpa using hhead) hlast rfl
  · cases hbox

/-- A line with a marker opens the entry that is made of it. -/
theorem opens_item (h : '\n' ∉ line) (hm : Line.marker? line = some m) :
    Opens line (item m).checked (item m).content := by
  obtain ⟨indentation, mark, gap, hline, hindentation, hmark, hne, hgap⟩ := marker?_eq_some h hm
  obtain ⟨a, b, ha, hb, hcontent⟩ := exists_eq_trim m.content
  have hbody : '\n' ∉ trim m.content := fun hmem =>
    h ((Line.isInfix_marker? hm).1.subset ((isInfix_trim m.content).subset hmem))
  have hopens : ∀ checked content, HasBox m.ordered checked (trim m.content) content →
      trim content = content → Opens line checked content := by
    intro checked content hbox htrim
    refine ⟨m.ordered, indentation, mark, gap ++ a, trim m.content, b, ?_, hindentation, hmark,
      by simp [hne], ?_, hbox, htrim, hb⟩
    · rw [hline, List.append_assoc, ← hcontent]
    · simp only [allBlank, List.all_append, Bool.and_eq_true] at hgap ha ⊢
      exact ⟨hgap, ha⟩
  unfold item
  dsimp only
  split
  · next hordered => exact hopens none _ (.plain (.inl hordered)) (trim_trim _)
  · next hordered =>
    rw [Bool.not_eq_true] at hordered
    split
    · next ticked text hbox =>
      obtain ⟨hhas, htrim⟩ := taskBox?_eq_some hbody (trim_trim _) hbox
      exact hopens (some ticked) text (hordered ▸ hhas) htrim
    · next hbox => exact hopens none _ (.plain (.inr hbox)) (trim_trim _)

/-! ### Reading a list -/

/-- What an entry says. -/
structure Wording where
  /-- The state of its box, if it has one. -/
  checked : Option Bool
  /-- The lines of its text. -/
  lines : List Text
  deriving DecidableEq, Repr

mutual

/-- What the entries of a list and of the lists in it say; an entry stands before the lists in it. -/
def wordings : Block → List Wording
  | .list _ _ items => itemsWordings items
  | _ => []

/-- What the entries of some lists say. -/
def blocksWordings : List Block → List Wording
  | [] => []
  | b :: r => wordings b ++ blocksWordings r

/-- What an entry and the lists in it say. -/
def itemWordings : Item → List Wording
  | .mk content checked children => ⟨checked, Text.lines content⟩ :: blocksWordings children

/-- What some entries and the lists in them say. -/
def itemsWordings : List Item → List Wording
  | [] => []
  | i :: r => itemWordings i ++ itemsWordings r

end

theorem blocksWordings_append (bs cs : List Block) :
    blocksWordings (bs ++ cs) = blocksWordings bs ++ blocksWordings cs := by
  induction bs with
  | nil => rfl
  | cons b r ih => rw [List.cons_append, blocksWordings, blocksWordings, ih, List.append_assoc]

theorem itemsWordings_append (is js : List Item) :
    itemsWordings (is ++ js) = itemsWordings is ++ itemsWordings js := by
  induction is with
  | nil => rfl
  | cons i r ih => rw [List.cons_append, itemsWordings, itemsWordings, ih, List.append_assoc]

theorem itemsWordings_reverse_cons (i : Item) (done : List Item) :
    itemsWordings (i :: done).reverse = itemsWordings done.reverse ++ itemWordings i := by
  rw [List.reverse_cons, itemsWordings_append, itemsWordings, itemsWordings, List.append_nil]

theorem itemWordings_addChild (b : Block) (i : Item) :
    itemWordings (i.addChild b) = itemWordings i ++ wordings b := by
  cases i
  rw [Item.addChild, itemWordings, itemWordings, blocksWordings_append, blocksWordings, blocksWordings,
    List.append_nil, List.cons_append]

/-- One more line behind a text. -/
theorem lines_append {t l : Text} (h : '\n' ∉ l) :
    Text.lines (t ++ '\n' :: l) = Text.lines t ++ [l] := by
  have hsplit : Text.lines (t ++ '\n' :: l) = Text.lines t ++ Text.lines l :=
    List.splitOn_append_cons_self t l
  rw [hsplit, lines_of_not_mem h]

theorem itemWordings_item (h : '\n' ∉ line) (hm : Line.marker? line = some m) :
    itemWordings (item m) = [⟨(item m).checked, [(item m).content]⟩] := by
  have hcontent : '\n' ∉ (item m).content := fun hmem => h ((isInfix_item hm).subset hmem)
  have hchildren := children_item m
  revert hcontent hchildren
  cases item m with
  | mk content checked children =>
    rintro hcontent rfl
    simp only [Item.content] at hcontent
    rw [itemWordings, lines_of_not_mem hcontent]
    rfl

/-! ### Accounting for lines -/

/-- Whether a line has a marker. -/
def isMarked (line : Text) : Bool :=
  (Line.marker? line).isSome

/-- Whether a line is neither blank nor marked. -/
def isFurther (line : Text) : Bool :=
  !allBlank line && !isMarked line

theorem isMarked_of_allBlank (h : allBlank line = true) : isMarked line = false := by
  rw [isMarked, Line.marker?, trimStart_eq_nil_iff.mpr h]
  rfl

/-- The lines of some entries behind the first line of each. -/
def furtherLines (ws : List Wording) : List Text :=
  ws.flatMap fun w => w.lines.tail

/-- The state of the box and the first line of an entry. -/
def Wording.opening (w : Wording) : Option Bool × Option Text :=
  (w.checked, w.lines.head?)

/-- The state of the box and the first line of the entry that a line opens. -/
def opening (line : Text) : Option Bool × Option Text :=
  match Line.marker? line with
  | some m => ((item m).checked, some (item m).content)
  | none => (none, none)

/-- Some lines, among those of a list, lead from what was read before them to what is read after
them: the lines with a marker open the further entries, in order, and the other lines that are not
blank are the further lines of entries, in the order of the lines within each entry. -/
structure Accounts (before : List Wording) (lines : List Text) (after : List Wording) : Prop where
  /-- Entries keep their first lines, and each line with a marker opens one more. -/
  openings : after.map Wording.opening =
    before.map Wording.opening ++ (lines.filter isMarked).map opening
  /-- No other line is lost and none is repeated. -/
  further : (furtherLines after).Perm
    (furtherLines before ++ (lines.filter isFurther).map trim)
  /-- The lines of an entry stand in order. -/
  sorted : ∀ ls, (∀ w ∈ before, w.lines.tail.Sublist ls) →
    ∀ w ∈ after, w.lines.tail.Sublist (ls ++ (lines.filter isFurther).map trim)

namespace Accounts

variable {before between after : List Wording} {lines more : List Text}

theorem trans (h : Accounts before lines between) (h' : Accounts between more after) :
    Accounts before (lines ++ more) after where
  openings := by
    rw [h'.openings, h.openings, List.filter_append, List.map_append, List.append_assoc]
  further := by
    rw [List.filter_append, List.map_append, ← List.append_assoc]
    exact h'.further.trans (h.further.append_right _)
  sorted ls hls := by
    rw [List.filter_append, List.map_append, ← List.append_assoc]
    exact h'.sorted _ (h.sorted ls hls)

/-- What was read earlier stays. -/
theorem behind (first : List Wording) (h : Accounts before lines after) :
    Accounts (first ++ before) lines (first ++ after) where
  openings := by rw [List.map_append, List.map_append, h.openings, List.append_assoc]
  further := by
    simp only [furtherLines, List.flatMap_append, List.append_assoc]
    exact h.further.append_left _
  sorted ls hls w hw := by
    rcases List.mem_append.mp hw with hw | hw
    · exact (hls w (List.mem_append_left _ hw)).trans (List.sublist_append_left _ _)
    · exact h.sorted ls (fun v hv => hls v (List.mem_append_right _ hv)) w hw

/-- Blank lines vanish. -/
theorem blank (ws : List Wording) (h : ∀ l ∈ lines, allBlank l = true) : Accounts ws lines ws := by
  have hmarked : lines.filter isMarked = [] := List.filter_eq_nil_iff.mpr fun l hl => by
    simp [isMarked_of_allBlank (h l hl)]
  have hfurther : lines.filter isFurther = [] := List.filter_eq_nil_iff.mpr fun l hl => by
    simp [isFurther, h l hl]
  exact ⟨by simp [hmarked], by simp [hfurther], fun ls hls => by simpa [hfurther] using hls⟩

/-- A line with a marker opens an entry behind all others. -/
theorem opened (ws : List Wording) (h : '\n' ∉ line) (hm : Line.marker? line = some m) :
    Accounts ws [line] (ws ++ itemWordings (item m)) := by
  have hmarked : isMarked line = true := by simp [isMarked, hm]
  rw [itemWordings_item h hm]
  refine ⟨?_, ?_, fun ls hls w hw => ?_⟩
  · simp [hmarked, opening, hm, Wording.opening]
  · simp [isFurther, hmarked, furtherLines]
  · rcases List.mem_append.mp hw with hw | hw
    · exact (hls w hw).trans (List.sublist_append_left _ _)
    · rw [List.mem_singleton.mp hw]
      exact List.nil_sublist _

/-- A line without marker stands behind the other lines of an entry, also if lists in the entry have
been read since. -/
theorem continued (i : Item) (hblank : allBlank line = false) (hm : Line.marker? line = none)
    (h : '\n' ∉ line) :
    Accounts (itemWordings i) [line] (itemWordings (i.addLine (trim line))) := by
  obtain ⟨content, checked, children⟩ := i
  have hmarked : isMarked line = false := by simp [isMarked, hm]
  have hfurther : isFurther line = true := by simp [isFurther, hmarked, hblank]
  have htrim : '\n' ∉ trim line := fun hmem => h ((isInfix_trim line).subset hmem)
  obtain ⟨l, ls, hlines⟩ := exists_cons_lines content
  rw [Item.addLine, itemWordings, itemWordings, lines_append htrim, hlines]
  refine ⟨?_, ?_, fun ks hks w hw => ?_⟩
  · simp [hmarked, Wording.opening]
  · simp only [furtherLines, List.flatMap_cons, List.cons_append, List.tail_cons, List.append_assoc,
      List.filter_cons_of_pos hfurther, List.filter_nil, List.map_cons, List.map_nil]
    exact (List.perm_append_singleton (trim line) _).symm.append_left ls
  · simp only [List.filter_cons_of_pos hfurther, List.filter_nil, List.map_cons, List.map_nil]
    rcases List.mem_cons.mp hw with rfl | hw
    · exact (hks _ List.mem_cons_self).append (List.Sublist.refl [trim line])
    · exact (hks w (List.mem_cons_of_mem _ hw)).trans (List.sublist_append_left _ _)

end Accounts

theorem take_cons_add {α : Type} (a : α) (l : List α) (m n : Nat) :
    (a :: l).take (m + 1 + n) = a :: l.take m ++ (l.drop m).take n := by
  rw [List.take_add]
  rfl

/-- The lines that the loop takes lead from the entries before to all of them. -/
theorem accounts_collect (base : Nat) (ordered : Bool) (i : Item) (done : List Item)
    {lines : List Text} (h : AreLines lines) :
    Accounts (itemsWordings (i :: done).reverse)
      (lines.take (collect base ordered (i :: done) lines).value.taken)
      (itemsWordings (collect base ordered (i :: done) lines).value.items) := by
  -- The loop goes on behind the lines of a nested list, so the induction is on their number.
  induction hn : lines.length using Nat.strongRecOn generalizing base ordered i done lines with
  | ind n ih =>
    cases lines with
    | nil => simpa using Accounts.blank _ (by simp)
    | cons line rest =>
      simp only [List.length_cons] at hn
      have hline : '\n' ∉ line := h line List.mem_cons_self
      have hdrop : ∀ k, AreLines (rest.drop k) := fun k =>
        holds_drop (q := AreLines) (fun _ _ => AreLines.tail) k h.tail
      rw [collect_cons]
      split
      · exact Accounts.blank _ (by simp)
      · next blanks hturn =>
        obtain ⟨hblank, hblanks, hle⟩ := allBlank_of_turn_skip hturn
        have hskip := Accounts.blank (itemsWordings (i :: done).reverse)
          (List.forall_mem_cons.mpr ⟨hblank, hblanks⟩)
        have hmore := ih _ (by simp only [List.length_drop]; omega) base ordered i done
          (hdrop blanks) rfl
        rw [Report.value_bind, Report.value_pure, Entries.behind, Nat.add_comm, take_cons_add]
        exact hskip.trans hmore
      · next m hturn =>
        have hm := marker?_of_turn_nest hturn
        have hinner := ih rest.length (by omega) (Line.indent line) m.ordered (item m) [] h.tail rfl
        generalize hlist : collect (Line.indent line) m.ordered [item m] rest = inner at hinner ⊢
        have hchild : Accounts [] (line :: rest.take inner.value.taken)
            (itemsWordings inner.value.items) :=
          (Accounts.opened [] hline hm).trans (by simpa [itemsWordings] using hinner)
        have hmore := ih _ (by simp only [List.length_drop]; omega) base ordered
          (i.addChild (list m (start m).value inner.value.items)) done (hdrop inner.value.taken) rfl
        have hnested := hchild.behind (itemsWordings (i :: done).reverse)
        rw [List.append_nil, itemsWordings_reverse_cons, List.append_assoc] at hnested
        rw [itemsWordings_reverse_cons, itemWordings_addChild] at hmore
        simp only [Report.value_bind, Report.value_pure, Entries.behind]
        rw [Nat.add_comm _ (inner.value.taken + 1), take_cons_add, itemsWordings_reverse_cons]
        exact hnested.trans hmore
      · next m hturn =>
        have hm := (marker?_of_turn_entry hturn).1
        have hmore := ih rest.length (by omega) base ordered (item m) (i :: done) h.tail rfl
        rw [itemsWordings_reverse_cons] at hmore
        exact (Accounts.opened _ hline hm).trans hmore
      · next hturn =>
        obtain ⟨hblank, hm⟩ := marker?_of_turn_continuation hturn
        have hmore := ih rest.length (by omega) base ordered (i.addLine (trim line)) done h.tail rfl
        have hline := (Accounts.continued i hblank hm hline).behind (itemsWordings done.reverse)
        rw [itemsWordings_reverse_cons] at hmore
        rw [itemsWordings_reverse_cons]
        exact hline.trans hmore

/-- The lines that a list takes are all that is read in it. -/
theorem accounts_recogniseFrom {base : Option Nat} {number : Nat} {rest : List Text} {found : Match}
    (h : AreLines (line :: rest)) (hfound : recogniseFrom base number line rest = some found) :
    Accounts [] ((line :: rest).take (found.extra + 1)) (wordings found.block) := by
  unfold recogniseFrom at hfound
  split at hfound
  · cases hfound
  · next m hm =>
    dsimp only at hfound
    split at hfound
    · cases hfound
    · obtain rfl := Option.some.inj hfound
      have hopened := Accounts.opened [] (h line List.mem_cons_self) hm
      have hrest := accounts_collect (base.getD (Line.indent line)) m.ordered (item m) [] h.tail
      exact hopened.trans (by simpa [itemsWordings, list, wordings] using hrest)

/-! ### The lines of a list -/

theorem countP_visible (lines : List Text) :
    lines.countP (fun l => !allBlank l) =
      (lines.filter isMarked).length + (lines.filter isFurther).length := by
  rw [← List.countP_eq_length_filter, ← List.countP_eq_length_filter]
  induction lines with
  | nil => rfl
  | cons l r ih =>
    rw [List.countP_cons, List.countP_cons, List.countP_cons, ih]
    cases hblank : allBlank l with
    | true => simp [isMarked_of_allBlank hblank, isFurther, hblank]
    | false => cases hmarked : isMarked l <;> simp [isFurther, hblank, hmarked] <;> omega

/-- Entries that have lines have one first line each. -/
theorem length_flatMap_lines {ws : List Wording} (h : ∀ w ∈ ws, w.lines ≠ []) :
    (ws.flatMap Wording.lines).length = ws.length + (furtherLines ws).length := by
  induction ws with
  | nil => rfl
  | cons w r ih =>
    obtain ⟨hw, hr⟩ := List.forall_mem_cons.mp h
    have hpos := List.length_pos_iff.mpr hw
    have hrest := ih hr
    simp only [furtherLines, List.length_cons, List.flatMap_cons, List.length_append,
      List.length_tail] at hrest ⊢
    omega

/-- The marked lines open the entries that are read, one each and in order. -/
theorem Accounts.forall₂_opens {lines : List Text} {ws : List Wording} (h : Accounts [] lines ws)
    (hlines : AreLines lines) :
    List.Forall₂ (fun l w => ∃ content, w.lines.head? = some content ∧ Opens l w.checked content)
      (lines.filter isMarked) ws := by
  have hsame : List.Forall₂ (fun l w => opening l = w.opening) (lines.filter isMarked) ws := by
    have hopenings : (lines.filter isMarked).map opening = ws.map Wording.opening := h.openings.symm
    rw [← List.forall₂_map_right_iff, ← List.forall₂_map_left_iff, hopenings]
    exact List.forall₂_refl _
  have hmarked : ∀ l ∈ lines.filter isMarked, isMarked l = true ∧ '\n' ∉ l := fun l hl =>
    ⟨(List.mem_filter.mp hl).2, hlines l (List.mem_filter.mp hl).1⟩
  refine ((List.forall₂_and_left _ _).mpr ⟨hmarked, hsame⟩).imp fun l w hw => ?_
  obtain ⟨⟨hl, hnewline⟩, hopening⟩ := hw
  obtain ⟨m, hm⟩ := Option.isSome_iff_exists.mp hl
  rw [opening, hm] at hopening
  obtain ⟨hchecked, hhead⟩ := Prod.mk.inj hopening
  exact ⟨(item m).content, hhead.symm, hchecked ▸ opens_item hnewline hm⟩

/-- **No line of a list is lost, and none is repeated.** Wherever a list begins, and whatever column it
is asked to begin at: as many lines are read in the tree as lines that are not blank were taken for it.
The lines with a marker are the first lines of its entries, one each and in order, without
indentation, marker and box. The other lines, trimmed, are the further lines of its entries, each once,
and in each entry they stand in order. -/
theorem recogniseFrom_keeps_lines {base : Option Nat} {number : Nat} {rest : List Text} {found : Match}
    (h : AreLines (line :: rest)) (hfound : recogniseFrom base number line rest = some found) :
    let taken := (line :: rest).take (found.extra + 1)
    let ws := wordings found.block
    (ws.flatMap Wording.lines).length = taken.countP (fun l => !allBlank l) ∧
    List.Forall₂ (fun l w => ∃ content, w.lines.head? = some content ∧ Opens l w.checked content)
      (taken.filter isMarked) ws ∧
    (furtherLines ws).Perm ((taken.filter isFurther).map trim) ∧
    ∀ w ∈ ws, w.lines.tail.Sublist ((taken.filter isFurther).map trim) := by
  intro taken ws
  have haccounts := accounts_recogniseFrom h hfound
  have hopens := haccounts.forall₂_opens fun l hl => h l (List.mem_of_mem_take hl)
  have hfurther : (furtherLines ws).Perm ((taken.filter isFurther).map trim) := haccounts.further
  have hne : ∀ w ∈ ws, w.lines ≠ [] := by
    have hopened := hopens.flip.imp (S := fun w _ => w.lines ≠ [] ∧ True) fun w l hw => by
      obtain ⟨content, hhead, -⟩ := hw
      exact ⟨fun hnil => by simp [hnil] at hhead, trivial⟩
    exact ((List.forall₂_and_left _ _).mp hopened).1
  refine ⟨?_, hopens, hfurther, haccounts.sorted [] (by simp)⟩
  have hcount := hfurther.length_eq
  rw [List.length_map] at hcount
  rw [length_flatMap_lines hne, countP_visible, ← hopens.length_eq, hcount]

/-- Lines behind an entry: a list in it, a line that goes on with the entry itself, and one more entry
behind a blank line. -/
def nestedLines : List Text :=
  ["  1. b".toList, "  more".toList, [], "- c".toList, [], "d".toList]

/-- What is read of an entry and these lines. The line behind the nested list belongs to the outer
entry, and the last two lines are left. -/
theorem recogniseFrom_keeps_lines_nested :
    let line := "- [x] a".toList
    let ws : List Wording := [⟨some true, ["a".toList, "more".toList]⟩, ⟨none, ["b".toList]⟩,
      ⟨none, ["c".toList]⟩]
    AreLines (line :: nestedLines) ∧
    ∃ found, recogniseFrom (some 0) 0 line nestedLines = some found ∧ found.extra = 4 ∧
      wordings found.block = ws ∧
      (furtherLines ws).Perm ((((line :: nestedLines).take 5).filter isFurther).map trim) := by
  intro line ws
  have hlines : AreLines (line :: nestedLines) := by
    unfold AreLines
    decide
  obtain ⟨entries, hentries⟩ : ∃ entries, entries =
    (collect 0 false [.mk "a".toList (some true) []] nestedLines).value := ⟨_, rfl⟩
  obtain ⟨notes, hfound⟩ : ∃ notes, recogniseFrom (some 0) 0 line nestedLines =
      some ⟨.list false 1 entries.items, entries.taken, notes⟩ := by
    rw [hentries]
    exact ⟨_, rfl⟩
  have htaken : entries.taken = 4 := by
    rw [hentries]
    cbv
  have hwordings : itemsWordings entries.items = ws := by
    rw [hentries]
    cbv
  have hkept := (recogniseFrom_keeps_lines hlines hfound).2.2.1
  simp only [wordings, hwordings, htaken] at hkept
  exact ⟨hlines, _, hfound, htaken, hwordings, hkept⟩

end Listing

end Markdown
