import Markdown.Proofs.Characters
import Markdown.Proofs.Lossless
import Mathlib.Data.List.Infix
import Mathlib.Data.List.Nodup

/-!
# Toggles in HTML

A toggle of nested JSON carries its identifier twice, in the tag around it and in its own. No other tag
of a highlighter carries one, and code that looks like such a tag is escaped. So it can be read off the
HTML which values have a toggle (`Highlight.Nested.Toggles`).

Whether a value has one depends on what it holds, and not on the answer of the predicate about it
(`Highlight.Nested.asks_offer`, `Highlight.Nested.shows_offer`). A highlighter of which this holds as a
whole has stable toggles (`Highlight.Nested.Stable`): the identifiers that a page sends back are those
that the next rendering asks about.
-/

namespace Markdown

open Html

/-! ### Questions -/

namespace Report

variable {α β : Type} {x : Report α} {f : α → Report β} {ids more : List Text}

/-- A computation without faults that asks about some identifiers, in this order. -/
structure Asks (x : Report α) (ids : List Text) : Prop where
  /-- There is no fault. -/
  isClean : x.IsClean
  /-- These are the questions. -/
  questions_eq : x.questions = ids

theorem asks_pure (a : α) : (pure a : Report α).Asks [] :=
  ⟨isClean_pure a, rfl⟩

theorem asks_note (id : Text) : (note (.asked id)).Asks [id] :=
  ⟨fun f => by simp [note], rfl⟩

theorem asks_log (e : LogEntry) : (log e).Asks [] :=
  ⟨isClean_log e, rfl⟩

theorem Asks.bind (hx : x.Asks ids) (hf : (f x.value).Asks more) : (x >>= f).Asks (ids ++ more) := by
  have hclean : (x >>= f).IsClean := isClean_bind_iff.mpr ⟨hx.isClean, hf.isClean⟩
  refine ⟨hclean, ?_⟩
  rw [← hx.questions_eq, ← hf.questions_eq, questions, questions, questions, hclean.untilFault_notes,
    hx.isClean.untilFault_notes, hf.isClean.untilFault_notes, notes_bind, List.filterMap_append]

/-- Further computations may ask nothing. -/
theorem Asks.bind_nil (hx : x.Asks ids) (hf : (f x.value).Asks []) : (x >>= f).Asks ids := by
  have h := hx.bind hf
  rwa [List.append_nil] at h

end Report

namespace Highlight

/-! ### Toggles in HTML -/

namespace Nested

/-- A tag whose last attribute is an identifier. -/
def tagWith (front id : Text) : Text :=
  front ++ id ++ "\">".toList

/-- The opening tag around a toggle and what it shows. -/
def wrapperTag : Text → Text :=
  tagWith "<span class=\"nested-json\" data-nested-json-id=\"".toList

/-- The opening tag of a toggle. -/
def toggleTag : Text → Text :=
  tagWith "<span class=\"nested-json-toggle\" data-nested-json-toggle=\"".toList

/-- The two tags that carry the identifier of a place. -/
def idTags (k : Nat) : List Text :=
  [wrapperTag (idAt k), toggleTag (idAt k)]

/-- Whether a tag carries an identifier. -/
def carriesId (tag : Text) : Bool :=
  decide (" data-nested-json-".toList <:+: tag)

/-- HTML whose toggles are those of some places, in this order. -/
structure Toggles (html : Text) (places : List Nat) : Prop where
  /-- The tags with identifiers are theirs. -/
  filter_tags : (Html.tags html).filter carriesId = places.flatMap idTags
  /-- The two tags of a place stand next to each other. -/
  adjacent : ∀ k ∈ places, idTags k <:+: Html.tags html

/-- HTML with the toggles of some places wherever it stands. -/
def Shows (html : Text) (places : List Nat) : Prop :=
  ∃ visible ts, Reads html visible ts ∧ ts.filter carriesId = places.flatMap idTags ∧
    ∀ k ∈ places, idTags k <:+: ts

variable {html html' visible : Text} {places places' : List Nat}

theorem Shows.toggles (h : Shows html places) : Toggles html places := by
  obtain ⟨visible, ts, hreads, hfilter, hadjacent⟩ := h
  rw [← hreads.tags_eq] at hfilter hadjacent
  exact ⟨hfilter, hadjacent⟩

/-- What is visible can be read without a fault. -/
theorem Shows.visibleText_eq (h : Shows html places) : ∃ visible, visibleText html = pure visible := by
  obtain ⟨visible, ts, hreads, -⟩ := h
  exact ⟨visible, hreads.visibleText_eq⟩

theorem shows_of_reads {ts : List Text} (h : Reads html visible ts)
    (hts : ∀ t ∈ ts, carriesId t = false) : Shows html [] :=
  ⟨visible, ts, h, by simpa using hts, by simp⟩

theorem Shows.append (h : Shows html places) (h' : Shows html' places') :
    Shows (html ++ html') (places ++ places') := by
  obtain ⟨visible, ts, hreads, hfilter, hadjacent⟩ := h
  obtain ⟨visible', ts', hreads', hfilter', hadjacent'⟩ := h'
  refine ⟨visible ++ visible', ts ++ ts', hreads.append hreads', ?_, fun k hk => ?_⟩
  · rw [List.filter_append, hfilter, hfilter', List.flatMap_append]
  · rcases List.mem_append.mp hk with hk | hk
    · exact (hadjacent k hk).trans (List.prefix_append ts ts').isInfix
    · exact (hadjacent' k hk).trans (List.suffix_append ts ts').isInfix

theorem shows_escape (t : Text) : Shows (escape t) [] :=
  shows_of_reads (reads_escape t) (by simp)

theorem shows_tag {tag : Text} (h : IsTag tag) (hid : carriesId tag = false) : Shows tag [] :=
  shows_of_reads (reads_tag h) (by simpa using hid)

theorem carriesId_classTag (c : SpanClass) : carriesId (classTag c.name) = false := by
  cases c <;> decide +kernel

theorem carriesId_end : carriesId "</span>".toList = false := by
  decide +kernel

theorem shows_spanHtml (s : Span) : Shows (spanHtml s) [] := by
  have htext := shows_escape s.text
  unfold spanHtml
  split
  · exact htext
  · next c _ =>
    rw [wrap_eq]
    exact (shows_tag (isTag_classTag c) (carriesId_classTag c)).append
      (htext.append (shows_tag isTag_end carriesId_end))

/-- Spans carry no identifiers. -/
theorem shows_spansHtml (spans : List Span) : Shows (spansHtml spans) [] := by
  induction spans with
  | nil => exact shows_escape []
  | cons s spans ih => exact (shows_spanHtml s).append ih

/-- The opening tag of what a toggle shows. -/
def bodyTag (expanded : Bool) : Text :=
  if expanded then "<span class=\"nested-json-parsed\">".toList
  else "<span class=\"nested-json-raw\">".toList

theorem isTag_bodyTag (expanded : Bool) : IsTag (bodyTag expanded) := by
  cases expanded
  · exact ⟨"span class=\"nested-json-raw\"".toList, by decide +kernel, by decide +kernel⟩
  · exact ⟨"span class=\"nested-json-parsed\"".toList, by decide +kernel, by decide +kernel⟩

theorem gt_notMem_idAt (k : Nat) : '>' ∉ idAt k := by
  rw [idAt, String.toList_ofList, List.mem_append]
  rintro (h | h)
  · exact absurd h (by decide)
  · exact absurd (Text.isAsciiDigit_of_mem_ofNat h) (by decide)

theorem isTag_tagWith {front inner : Text} (hfront : front = '<' :: inner) (hinner : '>' ∉ inner)
    (k : Nat) : IsTag (tagWith front (idAt k)) := by
  refine ⟨inner ++ idAt k ++ ['"'], ?_, by simp [hinner, gt_notMem_idAt k]⟩
  rw [hfront, tagWith, String.toList_ofList]
  simp

theorem isTag_wrapperTag (k : Nat) : IsTag (wrapperTag (idAt k)) := by
  unfold wrapperTag
  rw [String.toList_ofList]
  exact isTag_tagWith rfl (by decide) k

theorem isTag_toggleTag (k : Nat) : IsTag (toggleTag (idAt k)) := by
  unfold toggleTag
  rw [String.toList_ofList]
  exact isTag_tagWith rfl (by decide) k

theorem carriesId_tagWith {front : Text} (h : carriesId front = true) (id : Text) :
    carriesId (tagWith front id) = true := by
  have hfront : front <:+: tagWith front id := by
    rw [tagWith, List.append_assoc]
    exact (List.prefix_append front _).isInfix
  exact decide_eq_true ((of_decide_eq_true h).trans hfront)

theorem carriesId_of_mem_idTags {k : Nat} {tag : Text} (h : tag ∈ idTags k) : carriesId tag = true := by
  have hwrapper : carriesId "<span class=\"nested-json\" data-nested-json-id=\"".toList = true := by
    decide +kernel
  have htoggle : carriesId "<span class=\"nested-json-toggle\" data-nested-json-toggle=\"".toList =
      true := by
    decide +kernel
  simp only [idTags, List.mem_cons, List.not_mem_nil, or_false] at h
  rcases h with rfl | rfl
  · exact carriesId_tagWith hwrapper _
  · exact carriesId_tagWith htoggle _

theorem carriesId_bodyTag (expanded : Bool) : carriesId (bodyTag expanded) = false := by
  cases expanded <;> decide +kernel

/-- The two tags of a place. -/
theorem shows_idTags (k : Nat) : Shows (wrapperTag (idAt k) ++ toggleTag (idAt k)) [k] := by
  refine ⟨_, idTags k, (reads_tag (isTag_wrapperTag k)).append (reads_tag (isTag_toggleTag k)), ?_, ?_⟩
  · rw [List.flatMap_singleton]
    exact List.filter_eq_self.mpr fun tag => carriesId_of_mem_idTags
  · exact List.forall_mem_singleton.mpr List.infix_rfl

theorem shows_glyph (expanded : Bool) :
    Shows [if expanded then expandedGlyph else collapsedGlyph] [] := by
  have hglyph : ∀ c, isReserved c = false → Shows [c] [] := fun c hc => by
    have hshows := shows_escape [c]
    rwa [escape_eq_self_iff.mpr (by simpa using hc)] at hshows
  split
  · exact hglyph _ (by decide)
  · exact hglyph _ (by decide)

theorem markup_eq (id raw : Text) (expanded : Bool) (parsed : Text) :
    markup id raw expanded parsed = wrapperTag id ++ toggleTag id ++
      ([if expanded then expandedGlyph else collapsedGlyph] ++ "</span>".toList ++ bodyTag expanded ++
        (if expanded then parsed else raw) ++ "</span>".toList ++ "</span>".toList) := by
  unfold markup wrapperTag toggleTag tagWith bodyTag
  repeat rw [String.toList_ofList]
  cases expanded <;> simp

/-- A toggle carries the identifier of its place, whatever it shows. -/
theorem shows_markup (k : Nat) {raw parsed : Text} (hraw : Shows raw []) (expanded : Bool)
    (hparsed : Shows parsed []) : Shows (markup (idAt k) raw expanded parsed) [k] := by
  have hbody : Shows (if expanded then parsed else raw) [] := by
    split
    · exact hparsed
    · exact hraw
  have hend := shows_tag isTag_end carriesId_end
  have hshown := ((((shows_glyph expanded).append hend).append
    (shows_tag (isTag_bodyTag expanded) (carriesId_bodyTag expanded))).append hbody).append hend
  rw [markup_eq]
  exact (shows_idTags k).append (hshown.append hend)

/-! ### One value -/

/-- Whether a text holds an object or an array. -/
def holds (candidate : Text) : Bool :=
  (read? candidate).value.isSome

/-- The place of a value that may hold JSON. -/
def placeOf (candidate : Text) (k : Nat) : List Nat :=
  if holds candidate then [k] else []

/-- The toggle for a candidate that is written `raw`, with the column at which its lines begin. -/
def offer (expanded : Text → Bool) (candidate raw : Text) (k column : Nat) : Report (Option Text) := do
  match ← read? candidate with
  | none => pure none
  | some v =>
    let id := idAt k
    Report.note (.asked id)
    let shown := expanded id
    let inner := if shown then Json.plain (format v column) else []
    pure (some (markup id (escape raw) shown inner))

theorem asks_read? (candidate : Text) : (read? candidate).Asks [] := by
  unfold read?
  dsimp only
  split
  · exact Report.asks_pure _
  · split
    · exact (Report.asks_log _).bind_nil (Report.asks_pure _)
    · split
      · split <;> exact Report.asks_pure _
      · exact Report.asks_pure _

/-- The predicate is asked exactly if there is a toggle. -/
theorem asks_offer (expanded : Text → Bool) (candidate raw : Text) (k column : Nat) :
    (offer expanded candidate raw k column).Asks ((placeOf candidate k).map idAt) := by
  refine (asks_read? candidate).bind ?_
  unfold placeOf holds
  cases (read? candidate).value with
  | none => exact Report.asks_pure _
  | some v => exact (Report.asks_note _).bind_nil (Report.asks_pure _)

/-- Whatever stands there without a toggle, the place alone decides about identifiers. -/
theorem shows_offer (expanded : Text → Bool) (candidate raw : Text) (k column : Nat) {other : Text}
    (hother : Shows other []) :
    Shows ((offer expanded candidate raw k column).value.getD other) (placeOf candidate k) := by
  unfold offer placeOf holds
  rw [Report.value_bind]
  cases (read? candidate).value with
  | none => exact hother
  | some v =>
    refine shows_markup k (shows_escape raw) _ ?_
    split
    · exact shows_spansHtml _
    · exact shows_escape []

/-! ### All answers alike -/

/-- A highlighter whose toggles stand at some places, whatever is expanded. -/
structure Stable (highlight : (Text → Bool) → Report Text) (places : List Nat) : Prop where
  /-- The predicate is asked about the places in order. -/
  asked : ∀ expanded, (highlight expanded).questions = places.map idAt
  /-- They go from left to right. -/
  increasing : places.Pairwise (· < ·)
  /-- No two have one identifier. -/
  distinct : (places.map idAt).Nodup
  /-- There is HTML with just these toggles, and the tags of each place are written once. -/
  shown : ∀ expanded, ∃ html, (highlight expanded).answer = .ok html ∧ Toggles html places ∧
    ∀ k ∈ places, ∀ tag ∈ idTags k, (Html.tags html).count tag = 1

theorem idAt_injective : Function.Injective idAt := fun _ _ h =>
  Text.ofNat_injective (List.append_cancel_left h)

theorem tagWith_injective (front : Text) : Function.Injective (tagWith front) := fun _ _ h =>
  List.append_cancel_left (List.append_cancel_right h)

theorem wrapperTag_ne_toggleTag (id id' : Text) : wrapperTag id ≠ toggleTag id' := by
  unfold wrapperTag toggleTag tagWith
  repeat rw [String.toList_ofList]
  simp

theorem nodup_idTags {places : List Nat} (h : places.Nodup) : (places.flatMap idTags).Nodup := by
  refine List.nodup_flatMap.mpr ⟨fun k _ => ?_, h.imp fun {j k} hne => ?_⟩
  · simp [idTags, wrapperTag_ne_toggleTag]
  · have hids : idAt k ≠ idAt j := idAt_injective.ne hne.symm
    have hwrapper : wrapperTag (idAt k) ≠ wrapperTag (idAt j) := (tagWith_injective _).ne hids
    have htoggle : toggleTag (idAt k) ≠ toggleTag (idAt j) := (tagWith_injective _).ne hids
    simp [Function.onFun, idTags, hwrapper, htoggle, wrapperTag_ne_toggleTag,
      (wrapperTag_ne_toggleTag _ _).symm]

theorem stable_of_shows {highlight : (Text → Bool) → Report Text} {places : List Nat}
    (hsorted : places.Pairwise (· < ·)) (h : ∀ expanded, (highlight expanded).Asks (places.map idAt) ∧
      Shows (highlight expanded).value places) : Stable highlight places := by
  have hnodup : places.Nodup := hsorted.imp fun hlt => hlt.ne
  refine ⟨fun expanded => (h expanded).1.questions_eq, hsorted, hnodup.map idAt_injective,
    fun expanded => ?_⟩
  obtain ⟨hasks, hshows⟩ := h expanded
  have htoggles := hshows.toggles
  refine ⟨_, hasks.isClean.answer_eq, htoggles, fun k hk tag htag => ?_⟩
  rw [← List.count_filter (carriesId_of_mem_idTags htag), htoggles.filter_tags]
  exact List.count_eq_one_of_mem (nodup_idTags hnodup) (List.mem_flatMap.mpr ⟨k, hk, htag⟩)

end Nested

end Highlight

end Markdown
