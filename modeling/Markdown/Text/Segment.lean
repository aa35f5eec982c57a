import Markdown.Text.Basic

/-!
# Cutting a text into segments

A scanner that never loses a character: at each character it says how many of the following
characters belong to the same segment, gives the segment a label, and moves to a new state.
Whatever the step function answers, the segments are not empty and their concatenation is the
text that was cut.
-/

namespace Markdown.Text

/-- What a scanner says about the segment that starts at the current character. -/
structure Cut (σ α : Type) where
  /-- How many characters after the current one belong to the segment. -/
  extra : Nat
  /-- What the segment is. -/
  label : α
  /-- The state behind the segment. -/
  state : σ

/-- A labelled part of a text. -/
structure Segment (α : Type) where
  /-- What the part is. -/
  label : α
  /-- The part itself. -/
  text : Text
  deriving DecidableEq, Repr

variable {σ α : Type}

/-- The segments of a text behind those already `done`, the latest first. -/
def segmentOnto (step : σ → Char → Text → Cut σ α) (done : List (Segment α)) (s : σ) :
    Text → List (Segment α)
  | [] => done.reverse
  | c :: r =>
    let cut := step s c r
    segmentOnto step (⟨cut.label, c :: r.take cut.extra⟩ :: done) cut.state (r.drop cut.extra)
termination_by t => t.length
decreasing_by simp only [List.length_cons, List.length_drop]; omega

/-- The segments of a text, scanned from the state `s`. -/
def segment (step : σ → Char → Text → Cut σ α) (s : σ) (t : Text) : List (Segment α) :=
  segmentOnto step [] s t

variable (step : σ → Char → Text → Cut σ α)

theorem segmentOnto_append (done before : List (Segment α)) (s : σ) (t : Text) :
    segmentOnto step (done ++ before) s t = before.reverse ++ segmentOnto step done s t := by
  fun_induction segmentOnto step done s t with
  | case1 done s => simp [segmentOnto]
  | case2 done s c r cut ih =>
    rw [segmentOnto]
    simpa using ih

@[simp] theorem segment_nil (s : σ) : segment step s [] = [] := by
  simp [segment, segmentOnto]

theorem segment_cons (s : σ) (c : Char) (r : Text) :
    segment step s (c :: r) =
      ⟨(step s c r).label, c :: r.take (step s c r).extra⟩ ::
        segment step (step s c r).state (r.drop (step s c r).extra) := by
  have h := segmentOnto_append step []
    [⟨(step s c r).label, c :: r.take (step s c r).extra⟩] (step s c r).state
    (r.drop (step s c r).extra)
  simpa [segment, segmentOnto] using h

/-- Nothing is lost and nothing is invented. -/
theorem flatMap_text_segment (s : σ) (t : Text) :
    (segment step s t).flatMap Segment.text = t := by
  induction h : t.length using Nat.strongRecOn generalizing s t with
  | ind n ih =>
    cases t with
    | nil => simp
    | cons c r =>
      rw [segment_cons, List.flatMap_cons, ih _ _ _ _ rfl]
      · simp
      · simp only [List.length_cons, List.length_drop] at h ⊢; omega

/-- No segment is empty. -/
theorem text_ne_nil_of_mem_segment {s : σ} {t : Text} {p : Segment α}
    (h : p ∈ segment step s t) : p.text ≠ [] := by
  induction hn : t.length using Nat.strongRecOn generalizing s t with
  | ind n ih =>
    cases t with
    | nil => simp at h
    | cons c r =>
      rw [segment_cons, List.mem_cons] at h
      rcases h with rfl | h
      · simp
      · exact ih _ (by simp only [List.length_cons, List.length_drop] at hn ⊢; omega) h rfl

/-- Every segment is one that a step has made. -/
theorem exists_step_of_mem_segment {s : σ} {t : Text} {p : Segment α} (h : p ∈ segment step s t) :
    ∃ s c r, p = ⟨(step s c r).label, c :: r.take (step s c r).extra⟩ := by
  induction hn : t.length using Nat.strongRecOn generalizing s t with
  | ind n ih =>
    cases t with
    | nil => simp at h
    | cons c r =>
      rw [segment_cons, List.mem_cons] at h
      rcases h with rfl | h
      · exact ⟨s, c, r, rfl⟩
      · exact ih _ (by simp only [List.length_cons, List.length_drop] at hn ⊢; omega) h rfl

end Markdown.Text
