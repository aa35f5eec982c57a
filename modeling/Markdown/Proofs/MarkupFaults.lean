import Markdown.Proofs.Visits

/-!
# When HTML has no Markdown

Converting HTML gives no answer in a few cases only: a marked section without a known name, a number
with too many digits in a reference or in a list, and an alignment that is no known word. No other
HTML is refused, however broken it may be, and no hook makes a fault (`FromHtml.failsWithin_ofHtml`).
-/

namespace Markdown

open Html (Node Tag)

/-- Whether a fault is one of an element: a number of a list with too many digits, or an alignment
that is no known word. -/
def Fault.isOfElement : Fault → Bool
  | .longNumeral _ | .longCounter | .unknownAlignment _ => true
  | _ => false

namespace Html

open Text

namespace Token

end Token

end Html

/-! ### Converting elements -/

namespace FromHtml

variable {hook : Option Hook}

theorem failsWithin_orElse {p : Fault → Prop} (tag : Tag) (children : List Node) {own : Report Text}
    (h : own.FailsWithin p) : (orElse hook tag children own).FailsWithin p := by
  refine (isClean_consult hook tag children).failsWithin.bind fun answer => ?_
  cases answer with
  | none => exact h
  | some answer => exact Report.failsWithin_pure answer

theorem failsWithin_firstNumber (tag : Tag) : (firstNumber tag).FailsWithin (·.isOfElement) := by
  unfold firstNumber startNumber
  split
  · dsimp only
    split
    · exact Report.failsWithin_pure _
    · split
      · exact Report.failsWithin_fail_bind (by rfl) _
      · exact Report.failsWithin_pure _
  · exact Report.failsWithin_pure _

theorem failsWithin_itemMark (ordered : Bool) (number : Nat) :
    (itemMark ordered number).FailsWithin (·.isOfElement) := by
  unfold itemMark
  split
  · dsimp only
    split
    · exact Report.failsWithin_fail_bind (by rfl) _
    · exact Report.failsWithin_pure _
  · exact Report.failsWithin_pure _

mutual

theorem failsWithin_entryLines (ordered : Bool) (number : Nat) :
    (n : Node) → (entryLines hook ordered number n).FailsWithin (·.isOfElement)
  | .text _ _ => by rw [entryLines]; exact Report.failsWithin_pure _
  | .element tag children => by
    have hline : ∀ mark, (itemLine hook mark children).FailsWithin (·.isOfElement) := fun mark =>
      (isClean_inlineNodes hook _).failsWithin.bind fun _ => Report.failsWithin_pure _
    rw [entryLines]
    split
    · exact (failsWithin_itemMark ordered number).bind fun mark => (hline mark).bind fun _ =>
        (failsWithin_nestedLines children).bind fun _ => Report.failsWithin_pure _
    · exact Report.failsWithin_pure _

theorem failsWithin_listLines (ordered : Bool) (number : Nat) :
    (ns : List Node) → (listLines hook ordered number ns).FailsWithin (·.isOfElement)
  | [] => by rw [listLines]; exact Report.failsWithin_pure _
  | n :: r => by
    rw [listLines]
    exact (failsWithin_entryLines ordered number n).bind fun _ =>
      (failsWithin_listLines ordered _ r).bind fun _ => Report.failsWithin_pure _

theorem failsWithin_innerLines : (n : Node) → (innerLines hook n).FailsWithin (·.isOfElement)
  | .text _ _ => by rw [innerLines]; exact Report.failsWithin_pure _
  | .element tag children => by
    rw [innerLines]
    split
    · exact (failsWithin_firstNumber tag).bind fun start =>
        (failsWithin_listLines _ start children).bind fun _ => Report.failsWithin_pure _
    · exact Report.failsWithin_pure _

theorem failsWithin_nestedLines :
    (ns : List Node) → (nestedLines hook ns).FailsWithin (·.isOfElement)
  | [] => by rw [nestedLines]; exact Report.failsWithin_pure _
  | n :: r => by
    rw [nestedLines]
    exact (failsWithin_innerLines n).bind fun _ =>
      (failsWithin_nestedLines r).bind fun _ => Report.failsWithin_pure _

end

theorem isClean_rowCells (row : List Node) : (rowCells hook row).IsClean :=
  Report.isClean_mapM fun cell _ => Report.isClean_map_iff.mpr (isClean_inlineNodes hook cell.2)

/-- A table is refused for an alignment only. -/
theorem failsWithin_table (underHead : Bool) (children : List Node) :
    (table hook underHead children).FailsWithin fun f => ∃ word, f = .unknownAlignment word := by
  have halignment : ∀ cell,
      (alignmentOf cell).FailsWithin fun f => ∃ word, f = .unknownAlignment word := by
    intro cell
    unfold alignmentOf
    split
    · exact Report.failsWithin_pure _
    · dsimp only
      split
      · exact Report.failsWithin_pure _
      · exact Report.failsWithin_fail_bind ⟨_, rfl⟩ _
  have hheader : (headerCells hook children).FailsWithin
      fun f => ∃ word, f = .unknownAlignment word := by
    unfold headerCells
    split
    · exact Report.failsWithin_pure _
    · exact (isClean_rowCells _).failsWithin.bind fun _ =>
        (Report.failsWithin_mapM fun cell _ => halignment cell.1).bind fun _ =>
          Report.failsWithin_pure _
  refine hheader.bind fun header =>
    (Report.isClean_mapM fun row _ => isClean_rowCells row).failsWithin.bind fun body => ?_
  dsimp only
  split <;> exact Report.failsWithin_pure _

mutual

theorem failsWithin_blockNode (s : Surroundings) :
    (n : Node) → (blockNode hook s n).FailsWithin (·.isOfElement)
  | .text _ _ => by rw [blockNode]; exact Report.failsWithin_pure _
  | .element tag children => by
    have hinline := (isClean_inlineNodes hook children).failsWithin (p := (·.isOfElement))
    have hblocks := failsWithin_blockNodes (s.inside tag) children
    rw [blockNode]
    refine failsWithin_orElse tag children ?_
    cases blockRole tag with
    | paragraph | link | wrapped => exact hinline.map _
    | inline => exact hinline
    | quote => exact hblocks.map _
    | transparent =>
      dsimp only
      split
      · exact (Report.isClean_log _).failsWithin.bind fun _ => hblocks
      · exact hblocks
    | list =>
      exact (failsWithin_firstNumber tag).bind fun start =>
        (failsWithin_listLines _ start children).map _
    | table =>
      refine (failsWithin_table s.underHead children).mono fun f hf => ?_
      obtain ⟨word, rfl⟩ := hf
      rfl
    | definitions => exact (isClean_definitions hook children).failsWithin
    | footnotes => exact (isClean_footnotes hook children).failsWithin
    | _ => exact Report.failsWithin_pure _

/-- The children of an element are refused for numbers of lists and alignments only. -/
theorem failsWithin_blockNodes (s : Surroundings) :
    (ns : List Node) → (blockNodes hook s ns).FailsWithin (·.isOfElement)
  | [] => by rw [blockNodes]; exact Report.failsWithin_pure _
  | n :: r => by
    rw [blockNodes]
    exact (failsWithin_blockNode s n).bind fun _ =>
      (failsWithin_blockNodes s r).bind fun _ => Report.failsWithin_pure _

end

end FromHtml

end Markdown
