import Markdown.Block.Listing
import Mathlib.Data.List.TakeWhile

/-!
# The loop over the lines of a list

What `Listing.collect` does with a line is one of five things, and `Listing.turn` says which.
`collect_cons` is the step of the loop in these terms, and `says_turn` tells what is known of the line
at each of them; facts about lists go by these two and by induction on the number of lines, and never
look into the loop itself.
-/

namespace Markdown.Listing

/-- What the loop does with a line. -/
inductive Turn where
  /-- The list ends before the line. -/
  | stop
  /-- The line and some more behind it are blank and an entry follows. -/
  | skip (blanks : Nat)
  /-- The line opens a list inside the latest entry. -/
  | nest (m : Line.Marker)
  /-- The line is the next entry. -/
  | entry (m : Line.Marker)
  /-- The line continues the latest entry. -/
  | continuation
  deriving DecidableEq, Repr

/-- What the loop does with a line of a list at column `base`; `fresh` tells that the list has no
entry yet. -/
def turn (base : Nat) (ordered fresh : Bool) (line : Text) (rest : List Text) : Turn :=
  let nested := !fresh && base + nesting ≤ Line.indent line
  if Text.allBlank line then
    match resumesAfter? base ordered rest with
    | some blanks => .skip blanks
    | none => .stop
  else if Line.indent line < base then .stop
  else
    match Line.marker? line with
    | some m =>
      if nested then .nest m else if m.ordered == ordered then .entry m else .stop
    | none => if nested then .continuation else .stop

/-- No list is inside an entry that has just been opened. -/
theorem children_item (m : Line.Marker) : (item m).children = [] := by
  unfold item
  dsimp only
  split
  · rfl
  · split <;> rfl

@[simp] theorem collect_nil (base : Nat) (ordered : Bool) (done : List Item) :
    collect base ordered done [] = pure ⟨done.reverse, 0⟩ := by
  rw [collect]

/-- The step of the loop. -/
theorem collect_cons (base : Nat) (ordered : Bool) (done : List Item) (line : Text)
    (rest : List Text) :
    collect base ordered done (line :: rest) =
      (match turn base ordered done.isEmpty line rest with
      | .stop => pure ⟨done.reverse, 0⟩
      | .skip blanks => do
        let more ← collect base ordered done (rest.drop blanks)
        pure (more.behind (blanks + 1))
      | .nest m => do
        let first ← start m
        let inner ← collect (Line.indent line) m.ordered [item m] rest
        let more ← collect base ordered (onLatest (Item.addChild (list m first inner.items)) done)
          (rest.drop inner.taken)
        pure (more.behind (inner.taken + 1))
      | .entry m => do
        let more ← collect base ordered (item m :: done) rest
        pure (more.behind 1)
      | .continuation => do
        let more ← collect base ordered (onLatest (Item.addLine (Text.trim line)) done) rest
        pure (more.behind 1)) := by
  rw [collect]
  unfold turn
  dsimp only
  split
  · cases resumesAfter? base ordered rest <;> rfl
  · split
    · rfl
    · cases Line.marker? line with
      | some m =>
        dsimp only
        split
        · rfl
        · split <;> rfl
      | none =>
        dsimp only
        split <;> rfl

theorem resumesAfter?_eq_some {base : Nat} {ordered : Bool} {lines : List Text} {n : Nat}
    (h : resumesAfter? base ordered lines = some n) :
    n = (lines.takeWhile Text.allBlank).length := by
  unfold resumesAfter? at h
  dsimp only at h
  split at h
  · cases h
  · split at h
    · cases h
    · split at h
      · exact (Option.some.inj h).symm
      · cases h

/-- What is known of a line when the loop takes a turn. -/
def Turn.Says (base : Nat) (ordered fresh : Bool) (line : Text) (rest : List Text) : Turn → Prop
  | .stop => True
  | .skip blanks => Text.allBlank line = true ∧ resumesAfter? base ordered rest = some blanks
  | .nest m => Line.marker? line = some m ∧ fresh = false ∧ base + nesting ≤ Line.indent line
  | .entry m => Line.marker? line = some m ∧ m.ordered = ordered ∧ base ≤ Line.indent line
  | .continuation => Text.allBlank line = false ∧ Line.marker? line = none ∧ fresh = false ∧
    base + nesting ≤ Line.indent line

/-- All that a turn depends on. -/
theorem says_turn (base : Nat) (ordered fresh : Bool) (line : Text) (rest : List Text) :
    (turn base ordered fresh line rest).Says base ordered fresh line rest := by
  unfold turn
  dsimp only
  split
  · next hblank =>
    cases hresume : resumesAfter? base ordered rest with
    | some blanks => exact ⟨hblank, hresume⟩
    | none => trivial
  · next hblank =>
    split
    · trivial
    · next hindent =>
      cases hmarker : Line.marker? line with
      | some m =>
        dsimp only
        split
        · next hnested =>
          simp only [Bool.and_eq_true, Bool.not_eq_true', decide_eq_true_eq] at hnested
          exact ⟨hmarker, hnested⟩
        · split
          · next hordered => exact ⟨hmarker, beq_iff_eq.mp hordered, Nat.le_of_not_lt hindent⟩
          · trivial
      | none =>
        dsimp only
        split
        · next hnested =>
          simp only [Bool.and_eq_true, Bool.not_eq_true', decide_eq_true_eq] at hnested
          exact ⟨by simpa using hblank, hmarker, hnested⟩
        · trivial

section Turns

variable {base : Nat} {ordered fresh : Bool} {line : Text} {rest : List Text} {m : Line.Marker}

/-- Only blank lines are skipped, and they are there. -/
theorem allBlank_of_turn_skip {n : Nat} (h : turn base ordered fresh line rest = .skip n) :
    Text.allBlank line = true ∧ (∀ l ∈ rest.take n, Text.allBlank l = true) ∧ n ≤ rest.length := by
  obtain ⟨hline, hresume⟩ : Turn.Says base ordered fresh line rest (.skip n) := h ▸ says_turn ..
  obtain rfl := resumesAfter?_eq_some hresume
  have hprefix := List.takeWhile_prefix Text.allBlank (l := rest)
  refine ⟨hline, fun l hl => ?_, hprefix.length_le⟩
  rw [← List.prefix_iff_eq_take.mp hprefix] at hl
  exact List.mem_takeWhile_imp hl

/-- A nested list opens at a line with a marker. -/
theorem marker?_of_turn_nest (h : turn base ordered fresh line rest = .nest m) :
    Line.marker? line = some m := by
  have hturn : Turn.Says base ordered fresh line rest (.nest m) := h ▸ says_turn ..
  exact hturn.1

/-- An entry starts at a line with a marker of the kind of the list. -/
theorem marker?_of_turn_entry (h : turn base ordered fresh line rest = .entry m) :
    Line.marker? line = some m ∧ m.ordered = ordered := by
  have hturn : Turn.Says base ordered fresh line rest (.entry m) := h ▸ says_turn ..
  exact ⟨hturn.1, hturn.2.1⟩

/-- A line that continues an entry has no marker. -/
theorem marker?_of_turn_continuation (h : turn base ordered fresh line rest = .continuation) :
    Text.allBlank line = false ∧ Line.marker? line = none := by
  have hturn : Turn.Says base ordered fresh line rest .continuation := h ▸ says_turn ..
  exact ⟨hturn.1, hturn.2.1⟩

end Turns

/-- The loop stays inside the lines, at every depth of nesting. -/
theorem collect_taken_le (base : Nat) (ordered : Bool) (done : List Item) (lines : List Text) :
    (collect base ordered done lines).value.taken ≤ lines.length := by
  induction hn : lines.length using Nat.strongRecOn generalizing base ordered done lines with
  | ind n ih =>
    cases lines with
    | nil => simp
    | cons line rest =>
      simp only [List.length_cons] at hn
      rw [collect_cons]
      split
      · exact Nat.zero_le _
      · next blanks hturn =>
        have hle := (allBlank_of_turn_skip hturn).2.2
        have hmore := ih _ (by simp only [List.length_drop]; omega) base ordered done
          (rest.drop blanks) rfl
        simp only [List.length_drop] at hmore
        simp only [Report.value_bind, Report.value_pure, Entries.behind]
        omega
      · next m _ =>
        simp only [Report.value_bind, Report.value_pure, Entries.behind]
        generalize hchild : list m _ _ = child
        have hinner := ih rest.length (by omega) (Line.indent line) m.ordered [item m] rest rfl
        have hmore := ih _ (by simp only [List.length_drop]; omega) base ordered
          (onLatest (Item.addChild child) done)
          (rest.drop (collect (Line.indent line) m.ordered [item m] rest).value.taken) rfl
        simp only [List.length_drop] at hmore
        omega
      · next m _ =>
        have hmore := ih rest.length (by omega) base ordered (item m :: done) rest rfl
        simp only [Report.value_bind, Report.value_pure, Entries.behind]
        omega
      · have hmore := ih rest.length (by omega) base ordered
          (onLatest (Item.addLine (Text.trim line)) done) rest rfl
        simp only [Report.value_bind, Report.value_pure, Entries.behind]
        omega

end Markdown.Listing
