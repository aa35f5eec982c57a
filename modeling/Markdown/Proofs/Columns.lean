import Markdown.Proofs.InlineTexts
import Markdown.Proofs.Listing
import Markdown.Proofs.Shapes
import Markdown.Proofs.Tiling

/-!
# The columns of a list

A line has to be indented to become part of a list inside another one, and to continue an entry. Taken
together, the lines of a list are therefore indented by so many columns at least (`Listing.columns`):
two for each level at each entry, and two more at each further line of its text. What the lines do not
have, no list can be made of (`Listing.columns_recognise_le`).
-/

namespace Markdown.Listing

open Text

variable {base depth : Nat} {line l : Text} {rest : List Text} {m : Line.Marker}

mutual

/-- How many columns the lines of a list at a depth are indented at least, taken together. -/
def columns (depth : Nat) : Block → Nat
  | .list _ _ items => itemsColumns depth items
  | _ => 0

/-- The columns of the lists in an entry. -/
def childColumns (depth : Nat) : List Block → Nat
  | [] => 0
  | b :: r => columns depth b + childColumns depth r

/-- The columns of an entry: those of its first line, of the further lines of its text, and of the lists
in it. -/
def itemColumns (depth : Nat) : Item → Nat
  | .mk content _ children =>
    nesting * depth + content.count '\n' * (nesting * (depth + 1)) + childColumns (depth + 1) children

/-- The columns of some entries. -/
def itemsColumns (depth : Nat) : List Item → Nat
  | [] => 0
  | i :: r => itemColumns depth i + itemsColumns depth r

end

/-- The columns of some lines that stand at a depth. -/
def indents (depth : Nat) : List Text → Nat
  | [] => 0
  | l :: ls => nesting * depth + Line.indent l + indents depth ls

theorem indents_append (depth : Nat) (ls ks : List Text) :
    indents depth (ls ++ ks) = indents depth ls + indents depth ks := by
  induction ls with
  | nil => rw [List.nil_append, indents, Nat.zero_add]
  | cons l ls ih => rw [List.cons_append, indents, indents, ih, Nat.add_assoc _ _ (indents depth ks)]

theorem indents_drop_le (depth n : Nat) (ls : List Text) : indents depth (ls.drop n) ≤ indents depth ls := by
  have hsplit := indents_append depth (ls.take n) (ls.drop n)
  rw [List.take_append_drop] at hsplit
  omega

/-! ### Entries -/

theorem itemsColumns_append (depth : Nat) (is js : List Item) :
    itemsColumns depth (is ++ js) = itemsColumns depth is + itemsColumns depth js := by
  induction is with
  | nil => simp [itemsColumns]
  | cons i is ih => rw [List.cons_append, itemsColumns, itemsColumns, ih, Nat.add_assoc]

theorem itemsColumns_reverse (depth : Nat) (items : List Item) :
    itemsColumns depth items.reverse = itemsColumns depth items := by
  induction items with
  | nil => rfl
  | cons i items ih =>
    rw [List.reverse_cons, itemsColumns_append, ih]
    simp only [itemsColumns]
    omega

theorem childColumns_append (depth : Nat) (bs cs : List Block) :
    childColumns depth (bs ++ cs) = childColumns depth bs + childColumns depth cs := by
  induction bs with
  | nil => simp [childColumns]
  | cons b bs ih => rw [List.cons_append, childColumns, childColumns, ih, Nat.add_assoc]

/-- A list needs its own columns inside an entry. -/
theorem itemsColumns_onLatest_addChild (depth : Nat) (b : Block) (done : List Item) :
    itemsColumns depth (onLatest (Item.addChild b) done) ≤
      itemsColumns depth done + columns (depth + 1) b := by
  cases done with
  | nil => simp [onLatest, itemsColumns]
  | cons i done =>
    obtain ⟨content, checked, children⟩ := i
    simp only [onLatest, Item.addChild, itemsColumns, itemColumns, childColumns_append, childColumns]
    omega

/-- A further line of an entry needs the columns of the next level. -/
theorem itemsColumns_onLatest_addLine (depth : Nat) (hl : '\n' ∉ l) (done : List Item) :
    itemsColumns depth (onLatest (Item.addLine l) done) ≤
      itemsColumns depth done + nesting * (depth + 1) := by
  cases done with
  | nil => simp [onLatest, itemsColumns]
  | cons i done =>
    obtain ⟨content, checked, children⟩ := i
    have hcount : (content ++ '\n' :: l).count '\n' = content.count '\n' + 1 := by
      rw [List.count_append, List.count_cons_self, List.count_eq_zero.mpr hl]
    simp only [onLatest, Item.addLine, itemsColumns, itemColumns, hcount, Nat.add_mul, Nat.one_mul]
    omega

/-- An entry that has just been opened needs the columns of its level. -/
theorem itemsColumns_item (depth : Nat) (hline : '\n' ∉ line) (hm : Line.marker? line = some m)
    (done : List Item) :
    itemsColumns depth (item m :: done) = nesting * depth + itemsColumns depth done := by
  have hcontent : '\n' ∉ (item m).content := fun hmem => hline ((isInfix_item hm).subset hmem)
  have hchildren := children_item m
  revert hcontent hchildren
  cases item m with
  | mk content checked children =>
    rintro hcontent rfl
    have hcount : content.count '\n' = 0 := List.count_eq_zero.mpr hcontent
    simp [itemsColumns, itemColumns, childColumns, hcount]

/-! ### The loop -/

theorem drop_behind (line : Text) (rest : List Text) (e : Entries) (k : Nat) :
    (line :: rest).drop (e.behind (k + 1)).taken = (rest.drop k).drop e.taken := by
  rw [Entries.behind, ← Nat.add_assoc, List.drop_succ_cons, List.drop_drop, Nat.add_comm]

/-- What the loop makes of lines needs no more columns than it has, and the lines that it leaves keep
theirs. This is an induction on the number of lines; each turn pays for what it adds with the columns of
its line. -/
theorem itemsColumns_collect_le (ordered : Bool) (done : List Item) {lines : List Text}
    (hbase : nesting * depth ≤ base) (hclean : ∀ l ∈ lines, '\n' ∉ l) :
    itemsColumns depth (collect base ordered done lines).value.items +
        indents 0 (lines.drop (collect base ordered done lines).value.taken) ≤
      itemsColumns depth done + indents 0 lines := by
  induction hn : lines.length using Nat.strongRecOn generalizing base depth ordered done lines with
  | ind n ih =>
    cases lines with
    | nil => simp [itemsColumns_reverse]
    | cons line rest =>
      simp only [List.length_cons] at hn
      obtain ⟨hline, hrest⟩ := List.forall_mem_cons.mp hclean
      have hbehind : ∀ k, ∀ l ∈ rest.drop k, '\n' ∉ l := fun k l hl =>
        hrest l (List.mem_of_mem_drop hl)
      have hindents : indents 0 (line :: rest) = nesting * 0 + Line.indent line + indents 0 rest := rfl
      have hdeeper : base + nesting ≤ Line.indent line → nesting * (depth + 1) ≤ Line.indent line := by
        rw [Nat.mul_succ]
        omega
      rw [collect_cons]
      split
      · simp [itemsColumns_reverse]
      · next blanks _ =>
        -- blank lines are skipped: their columns are lost, which the inequality allows
        have hmore := ih _ (by rw [List.length_drop]; omega) ordered done hbase (hbehind blanks) rfl
        have hskipped := indents_drop_le 0 blanks rest
        simp only [Report.value_bind, Report.value_pure, drop_behind]
        simp only [Entries.behind]
        omega
      · next m hturn =>
        obtain ⟨hmarker, -, hindent⟩ : Turn.Says base ordered done.isEmpty line rest (.nest m) :=
          hturn ▸ says_turn ..
        -- the list inside runs one level deeper, and its marker line pays for its first entry
        have hinner := ih rest.length (by omega) m.ordered [item m] (hdeeper hindent) hrest rfl
        rw [itemsColumns_item (depth + 1) hline hmarker] at hinner
        simp only [Report.value_bind, Report.value_pure, drop_behind]
        generalize (collect (Line.indent line) m.ordered [item m] rest).value = inner at hinner ⊢
        have hchild := itemsColumns_onLatest_addChild depth (list m (start m).value inner.items) done
        have hmore := ih _ (by rw [List.length_drop]; omega) ordered
          (onLatest (Item.addChild (list m (start m).value inner.items)) done) hbase
          (hbehind inner.taken) rfl
        simp only [list, columns, itemsColumns] at hchild hinner hmore ⊢
        simp only [Entries.behind]
        omega
      · next m hturn =>
        obtain ⟨hmarker, -, hindent⟩ : Turn.Says base ordered done.isEmpty line rest (.entry m) :=
          hturn ▸ says_turn ..
        have hmore := ih rest.length (by omega) ordered (item m :: done) hbase hrest rfl
        rw [itemsColumns_item depth hline hmarker] at hmore
        simp only [Report.value_bind, Report.value_pure, drop_behind, List.drop_zero]
        simp only [Entries.behind]
        omega
      · next hturn =>
        obtain ⟨-, -, -, hindent⟩ : Turn.Says base ordered done.isEmpty line rest .continuation :=
          hturn ▸ says_turn ..
        -- a further line stands two columns to the right of its entry, which is what it needs
        have hcolumns := hdeeper hindent
        have htrim : '\n' ∉ trim line := fun hmem => hline ((isInfix_trim line).subset hmem)
        have hadded := itemsColumns_onLatest_addLine depth htrim done
        have hmore := ih rest.length (by omega) ordered (onLatest (Item.addLine (trim line)) done)
          hbase hrest rfl
        simp only [Report.value_bind, Report.value_pure, drop_behind, List.drop_zero]
        simp only [Entries.behind]
        omega

/-- **Lists have the columns of their lines.** A list that is read from lines needs no more columns than
these lines are indented by, taken together. -/
theorem columns_recognise_le {number : Nat} {found : Match}
    (h : recognise number line rest = some found) (hclean : ∀ l ∈ line :: rest, '\n' ∉ l) :
    columns 0 found.block ≤ indents 0 (line :: rest) := by
  obtain ⟨hline, hrest⟩ := List.forall_mem_cons.mp hclean
  obtain ⟨m, hmarker, rfl⟩ := recognise_eq_some h
  have hbase : nesting * 0 ≤ Line.indent line := Nat.zero_le _
  have hrun := itemsColumns_collect_le m.ordered [item m] hbase hrest
  rw [itemsColumns_item 0 hline hmarker] at hrun
  rw [indents]
  simp only [list, columns, itemsColumns] at hrun ⊢
  omega

end Markdown.Listing
