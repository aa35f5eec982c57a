import Markdown.Text.Segment

/-!
# Runs of scanners

What holds of the single steps of a scanner and carries over to whole texts. A scanner stops at the
end of each segment in some state, and what it has found so far keeps every invariant that its steps
keep (`Text.exists_reached`). Two scanners that cut alike and go on in the same state find the same
segments, whatever labels they give (`Text.segment_relabel`).
-/

namespace Markdown.Text

variable {σ α β : Type}

/-- The segment that a cut at a character takes. -/
def Cut.taken (cut : Cut σ α) (c : Char) (r : Text) : Segment α :=
  ⟨cut.label, c :: r.take cut.extra⟩

/-- What a cut takes and what it leaves are the text. -/
theorem Cut.text_taken_append (cut : Cut σ α) (c : Char) (r : Text) :
    (cut.taken c r).text ++ r.drop cut.extra = c :: r := by
  show c :: r.take cut.extra ++ r.drop cut.extra = c :: r
  rw [List.cons_append, List.take_append_drop]

/-- **Runs keep invariants.** Let `I` relate the segments found so far with the state, and let each step
keep it. Then any segment of a text is taken by a step from a state that `I` relates with the segments
in front of it, and the segments behind it are those of the rest of the text. -/
theorem exists_reached {step : σ → Char → Text → Cut σ α} {I : List (Segment α) → σ → Prop}
    (hstep : ∀ found s c r, I found s →
      I (found ++ [(step s c r).taken c r]) (step s c r).state)
    {s : σ} (hstart : I [] s) {t : Text} {front back : List (Segment α)} {p : Segment α}
    (h : segment step s t = front ++ p :: back) :
    ∃ s' c r, I front s' ∧ t = front.flatMap Segment.text ++ c :: r ∧ p = (step s' c r).taken c r ∧
      back = segment step (step s' c r).state (r.drop (step s' c r).extra) := by
  induction front generalizing I s t with
  | nil =>
    cases t with
    | nil =>
      rw [segment_nil] at h
      cases h
    | cons c r =>
      rw [segment_cons, List.nil_append] at h
      obtain ⟨hp, hback⟩ := List.cons.inj h
      exact ⟨s, c, r, hstart, rfl, hp.symm, hback.symm⟩
  | cons q front ih =>
    cases t with
    | nil =>
      rw [segment_nil] at h
      cases h
    | cons c r =>
      rw [segment_cons, List.cons_append] at h
      obtain ⟨hq, hrun⟩ := List.cons.inj h
      change (step s c r).taken c r = q at hq
      -- Behind the first segment the invariant speaks of that segment and of the later ones.
      have hfirst : I [q] (step s c r).state := hq ▸ hstep [] s c r hstart
      obtain ⟨s', d, rest, hinv, hrest, hp, hback⟩ := ih (I := fun found s => I (q :: found) s)
        (fun found s c r hfound => hstep (q :: found) s c r hfound) hfirst hrun
      refine ⟨s', d, rest, hinv, ?_, hp, hback⟩
      rw [← Cut.text_taken_append (step s c r) c r, hq, hrest, List.flatMap_cons, List.append_assoc]

/-- Each character of a text lies in one of the segments that make it up. -/
theorem exists_segment_at {segments : List (Segment α)} {a b : Text} {c : Char}
    (h : segments.flatMap Segment.text = a ++ c :: b) :
    ∃ front p back u v, segments = front ++ p :: back ∧ p.text = u ++ c :: v ∧
      a = front.flatMap Segment.text ++ u ∧ b = v ++ back.flatMap Segment.text := by
  induction segments generalizing a with
  | nil => exact absurd h.symm (by simp)
  | cons q segments ih =>
    rw [List.flatMap_cons] at h
    rcases List.append_eq_append_iff.mp h with ⟨a', rfl, hrest⟩ | ⟨more, hq, hrest⟩
    · obtain ⟨front, p, back, u, v, rfl, hp, rfl, rfl⟩ := ih hrest
      exact ⟨q :: front, p, back, u, v, rfl, hp, by rw [List.flatMap_cons, List.append_assoc], rfl⟩
    · cases more with
      | nil =>
        obtain ⟨front, p, back, u, v, rfl, hp, ha, rfl⟩ := @ih [] hrest.symm
        refine ⟨q :: front, p, back, u, v, rfl, hp, ?_, rfl⟩
        rw [List.flatMap_cons, List.append_assoc, ← ha, hq, List.append_nil, List.append_nil]
      | cons d more =>
        obtain ⟨rfl, rfl⟩ := List.cons.inj hrest
        exact ⟨[], q, segments, a, more, rfl, hq, rfl, rfl⟩

/-- Scanners that cut alike and go on in the same state find the same segments. Their labels differ as
those of the single steps do. -/
theorem segment_relabel {step : σ → Char → Text → Cut σ α} {step' : σ → Char → Text → Cut σ β}
    {relabel : Segment α → β}
    (hstep : ∀ s c r, step' s c r =
      ⟨(step s c r).extra, relabel ((step s c r).taken c r), (step s c r).state⟩)
    (s : σ) (t : Text) :
    segment step' s t = (segment step s t).map fun p => ⟨relabel p, p.text⟩ := by
  induction hn : t.length using Nat.strongRecOn generalizing s t with
  | ind n ih =>
    cases t with
    | nil => rw [segment_nil, segment_nil, List.map_nil]
    | cons c r =>
      have hshorter : (r.drop (step s c r).extra).length < n := by
        simp only [List.length_cons, List.length_drop] at hn ⊢
        omega
      rw [segment_cons, segment_cons, List.map_cons, hstep, ih _ hshorter _ _ rfl]
      rfl

end Markdown.Text
