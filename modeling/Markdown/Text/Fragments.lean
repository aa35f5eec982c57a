import Markdown.Text.Basic

/-!
# Fragments

A text that is put together from pieces. Empty pieces are left out, so that a separator never
stands beside nothing.
-/

namespace Markdown

/-- Pieces of a text, the latest first. -/
structure Fragments where
  /-- The pieces. -/
  pieces : List Text
  deriving DecidableEq, Repr

namespace Fragments

/-- No pieces. -/
def empty : Fragments :=
  ⟨[]⟩

/-- The pieces with one more, unless it is empty. -/
def append (f : Fragments) (t : Text) : Fragments :=
  if t.isEmpty then f else ⟨t :: f.pieces⟩

/-- The pieces with several more. -/
def extend (f : Fragments) (ts : List Text) : Fragments :=
  ts.foldl append f

/-- The pieces of a list of texts. -/
def ofList (ts : List Text) : Fragments :=
  empty.extend ts

/-- The pieces in order. -/
def toList (f : Fragments) : List Text :=
  f.pieces.reverse

/-- The number of pieces. -/
def size (f : Fragments) : Nat :=
  f.pieces.length

/-- The text, with a separator between each two pieces. -/
def join (f : Fragments) (separator : Text) : Text :=
  separator.intercalate f.toList

/-- Pieces that are not empty are all kept. -/
theorem join_ofList {ts : List Text} (h : ∀ t ∈ ts, t ≠ []) (separator : Text) :
    (ofList ts).join separator = separator.intercalate ts := by
  have hextend : ∀ f : Fragments, (f.extend ts).pieces = ts.reverse ++ f.pieces := by
    induction ts with
    | nil => exact fun f => rfl
    | cons t ts ih =>
      intro f
      have hfirst : (f.append t).pieces = t :: f.pieces := by
        simp [append, h t List.mem_cons_self]
      have hrest := ih (fun u hu => h u (List.mem_cons_of_mem t hu)) (f.append t)
      rw [extend, List.foldl_cons]
      exact hrest.trans (by simp [hfirst])
  simp [join, toList, ofList, hextend, empty]

/-- The joined text ends with the last piece. -/
theorem exists_join_ofList_concat (ts : List Text) (t separator : Text) :
    ∃ front, (ofList (ts ++ [t])).join separator = front ++ t := by
  have hends : ∀ ps : List Text, ∃ front, separator.intercalate (ps ++ [t]) = front ++ t := by
    intro ps
    induction ps with
    | nil => exact ⟨[], by simp [List.intercalate]⟩
    | cons p ps ih =>
      obtain ⟨front, hfront⟩ := ih
      obtain ⟨q, qs, hqs⟩ := List.exists_cons_of_ne_nil (List.append_ne_nil_of_right_ne_nil ps
        (List.cons_ne_nil t []))
      rw [List.cons_append, hqs, List.intercalate_cons_cons, ← hqs, hfront]
      exact ⟨p ++ separator ++ front, by simp⟩
  have hlast : ofList (ts ++ [t]) = (ofList ts).append t := by simp [ofList, extend]
  rw [hlast, append]
  split
  · next hempty => exact ⟨(ofList ts).join separator, by simp [List.isEmpty_iff.mp hempty]⟩
  · rw [join, toList, List.reverse_cons]
    exact hends _

/-- The text. -/
def build (f : Fragments) : Text :=
  f.join []

/-- The pieces without anything between them. -/
theorem build_eq_flatten (f : Fragments) : f.build = f.toList.flatten := by
  unfold build join
  induction f.toList with
  | nil => rfl
  | cons t ts ih =>
    cases ts with
    | nil => simp [List.intercalate]
    | cons u ts => simp [List.intercalate_cons_cons, ih]

theorem build_append (f : Fragments) (t : Text) : (f.append t).build = f.build ++ t := by
  rw [build_eq_flatten, build_eq_flatten, append]
  split
  · next hempty => simp [List.isEmpty_iff.mp hempty]
  · simp [toList]

end Fragments

end Markdown
