import Markdown.Proofs.Runs
import Markdown.Proofs.Toggles

/-!
# The places of toggles

Where toggles stand in highlighted JSON and YAML. An expanded value takes more lines and moves the
column, but the code is scanned as if nothing were expanded: spans are cut in advance, and the mode
behind a line is the same for all predicates (`Highlight.Yaml.exists_linePlaces`). In JSON the places are
the offsets of strings among the spans, in YAML those of values at the ends of lines.
-/

namespace Markdown

open Html

namespace Highlight

/-! ### JSON -/

namespace Json

open Nested

/-- The place of a span at an offset, if it is a string that holds JSON. -/
def spanPlaces (k : Nat) (s : Span) : List Nat :=
  if s.label = some .string then placeOf (unquote s.text) k else []

/-- The places of spans, the first of which stands at an offset. -/
def togglePlaces (k : Nat) : List Span → List Nat
  | [] => []
  | s :: spans => spanPlaces k s ++ togglePlaces (k + s.text.length) spans

theorem spanPlaces_cases (k : Nat) (s : Span) :
    spanPlaces k s = [] ∨
      spanPlaces k s = [k] ∧ s.label = some .string ∧ holds (unquote s.text) = true := by
  unfold spanPlaces placeOf
  split
  · next hlabel =>
    split
    · next hholds => exact .inr ⟨rfl, hlabel, hholds⟩
    · exact .inl rfl
  · exact .inl rfl

/-- HTML that shows something can be written without a fault. -/
theorem exists_markup (w : Writer) {html : Text} {places : List Nat} (h : Shows html places) :
    ∃ w', w.markup html = pure w' ∧ w'.build = w.build ++ html := by
  obtain ⟨visible, hvisible⟩ := h.visibleText_eq
  refine ⟨w.put html visible, ?_, w.html.build_append html⟩
  rw [Writer.markup, hvisible, pure_bind]

/-- A span asks about its own place only, and the next one stands behind it. -/
theorem writeSpan_spec (expanded : Text → Bool) (k : Nat) (w : Writer) (s : Span) :
    (writeSpan expanded (k, w) s).Asks ((spanPlaces k s).map idAt) ∧
      ∃ html w', (writeSpan expanded (k, w) s).value = (k + s.text.length, w') ∧
        w'.build = w.build ++ html ∧ Shows html (spanPlaces k s) := by
  have hspan := shows_spanHtml s
  unfold writeSpan spanPlaces
  dsimp only
  split
  · show Report.Asks (offer expanded (unquote s.text) s.text k w.column >>= _) _ ∧
      ∃ html w', (offer expanded (unquote s.text) s.text k w.column >>= _).value = _ ∧ _
    have hasks := asks_offer expanded (unquote s.text) s.text k w.column
    have hshows := shows_offer expanded (unquote s.text) s.text k w.column hspan
    -- The column of the writer matters inside the toggle only.
    generalize offer expanded (unquote s.text) s.text k w.column = offered at hasks hshows ⊢
    cases hvalue : offered.value with
    | none =>
      rw [hvalue] at hshows
      refine ⟨hasks.bind_nil ?_, spanHtml s, w.span s, ?_, w.html.build_append _, hshows⟩
      · rw [hvalue]
        exact Report.asks_pure _
      · rw [Report.value_bind, hvalue]
        rfl
    | some html =>
      rw [hvalue, Option.getD_some] at hshows
      obtain ⟨w', hmarkup, hbuild⟩ := exists_markup w hshows
      refine ⟨hasks.bind_nil ?_, html, w', ?_, hbuild, hshows⟩
      · rw [hvalue]
        dsimp only
        rw [hmarkup]
        exact Report.asks_pure _
      · rw [Report.value_bind, hvalue]
        dsimp only
        rw [hmarkup]
        rfl
  · exact ⟨Report.asks_pure _, spanHtml s, w.span s, rfl, w.html.build_append _, hspan⟩

theorem foldlM_writeSpan (expanded : Text → Bool) (spans : List Span) (k : Nat) (w : Writer) :
    (spans.foldlM (writeSpan expanded) (k, w)).Asks ((togglePlaces k spans).map idAt) ∧
      ∃ html, (spans.foldlM (writeSpan expanded) (k, w)).value.2.build = w.build ++ html ∧
        Shows html (togglePlaces k spans) := by
  induction spans generalizing k w with
  | nil => exact ⟨Report.asks_pure _, [], (List.append_nil _).symm, shows_escape []⟩
  | cons s spans ih =>
    obtain ⟨hasks, html, w', hvalue, hbuild, hshows⟩ := writeSpan_spec expanded k w s
    obtain ⟨hmore, rest, hrest, hshowsRest⟩ := ih (k + s.text.length) w'
    rw [List.foldlM_cons, togglePlaces, List.map_append]
    refine ⟨hasks.bind (by rwa [hvalue]), html ++ rest, ?_, hshows.append hshowsRest⟩
    rw [Report.value_bind, hvalue, hrest, hbuild, List.append_assoc]

theorem highlight_spec (expanded : Text → Bool) (code : Text) :
    (highlight (some expanded) code).Asks ((togglePlaces 0 (spans code)).map idAt) ∧
      Shows (highlight (some expanded) code).value (togglePlaces 0 (spans code)) := by
  obtain ⟨hasks, html, hbuild, hshows⟩ := foldlM_writeSpan expanded (spans code) 0 Writer.empty
  refine ⟨hasks.bind_nil (Report.asks_pure _), ?_⟩
  show Shows ((spans code).foldlM (writeSpan expanded) (0, Writer.empty)).value.2.build _
  rw [hbuild]
  exact hshows

theorem mem_togglePlaces {spans : List Span} {k n : Nat} (h : n ∈ togglePlaces k spans) :
    ∃ front token back, spans = front ++ ⟨some .string, token⟩ :: back ∧
      n = k + (spansCode front).length ∧ holds (unquote token) = true := by
  induction spans generalizing k with
  | nil => cases h
  | cons s spans ih =>
    rcases List.mem_append.mp h with h | h
    · rcases spanPlaces_cases k s with hnone | ⟨hplace, hlabel, hholds⟩
      · rw [hnone] at h
        cases h
      · rw [hplace] at h
        obtain rfl := List.mem_singleton.mp h
        obtain ⟨_, token⟩ := s
        obtain rfl := hlabel
        exact ⟨[], token, spans, rfl, rfl, hholds⟩
    · obtain ⟨front, token, back, rfl, rfl, hholds⟩ := ih h
      refine ⟨s :: front, token, back, rfl, ?_, hholds⟩
      show _ = k + (s.text ++ spansCode front).length
      rw [List.length_append, Nat.add_assoc]

/-- Spans are not empty, so no two have one place. -/
theorem pairwise_togglePlaces {spans : List Span} (h : ∀ s ∈ spans, s.text ≠ []) (k : Nat) :
    (togglePlaces k spans).Pairwise (· < ·) := by
  induction spans generalizing k with
  | nil => exact .nil
  | cons s spans ih =>
    obtain ⟨hs, hspans⟩ := List.forall_mem_cons.mp h
    rw [togglePlaces]
    rcases spanPlaces_cases k s with hnone | ⟨hplace, -⟩
    · rw [hnone]
      exact ih hspans _
    · rw [hplace]
      refine .cons (fun n hn => ?_) (ih hspans _)
      obtain ⟨front, -, -, -, rfl, -⟩ := mem_togglePlaces hn
      have hpos := List.length_pos_of_ne_nil hs
      omega

/-- An offset of JSON source at which a string of its spans opens that is no key and holds an object or
an array. -/
def OpensString (code : Text) (k : Nat) : Prop :=
  ∃ front token back, spans code = front ++ ⟨some .string, token⟩ :: back ∧
    k = (spansCode front).length ∧ code[k]? = some '"' ∧ holds (unquote token) = true

theorem label_step_ne_string {c : Char} (hc : c ≠ '"') (r : Text) :
    (step () c r).label ≠ some .string := by
  unfold step
  rw [if_neg hc]
  dsimp only
  split
  · simp [cut]
  · split
    · next w hw =>
      have hmem := List.mem_of_find?_eq_some hw
      have hall : ∀ w ∈ words, some w.2 ≠ some SpanClass.string := by decide
      exact hall w hmem
    · split <;> simp [cut]

theorem opensString_of_mem {code : Text} {k : Nat} (h : k ∈ togglePlaces 0 (spans code)) :
    OpensString code k := by
  obtain ⟨front, token, back, hspans, hk, hholds⟩ := mem_togglePlaces h
  rw [Nat.zero_add] at hk
  obtain ⟨_, c, r, -, hcode, htoken, -⟩ :=
    Text.exists_reached (I := fun _ _ => True) (fun _ _ _ _ _ => trivial) trivial hspans
  have hquote : c = '"' := by
    by_contra hc
    exact label_step_ne_string hc r (congrArg Text.Segment.label htoken).symm
  refine ⟨front, token, back, hspans, hk, ?_, hholds⟩
  rw [hcode, hk, hquote]
  simp [spansCode]

end Json

/-! ### YAML -/

namespace Yaml

open Nested

/-- What is read of a value: the text between its quotes, if there are some. -/
def candidate (value : Text) : Text :=
  if isQuoted value then (value.drop 1).dropLast else value

/-- The modes in front of lines, if none of them has a toggle. -/
def modes (mode : Mode) : List Text → List Mode
  | [] => []
  | line :: rest => mode :: modes (lineHtml none mode 0 line rest.head?).value.2 rest

/-- A line that goes on with nothing and ends in a value that holds an object or an array. -/
structure HoldsValue (mode : Mode) (head value : Text) : Prop where
  /-- The line is a new one. -/
  fresh : mode.continues (head ++ value) = false
  /-- Behind the head comes a value. -/
  introduces : Introduces head value
  /-- It is not empty. -/
  ne_nil : value ≠ []
  /-- It holds JSON. -/
  holds : holds (candidate value) = true

/-- An offset at which such a value starts on one of some lines, the first of which stands at another
offset. -/
def StartsOn (mode : Mode) (offset : Nat) (lines : List Text) (k : Nat) : Prop :=
  ∃ above head value below, lines = above ++ (head ++ value) :: below ∧
    (∃ m, (modes mode lines)[above.length]? = some m ∧ HoldsValue m head value) ∧
    k = offset + (Text.unlines (above ++ [head])).length

theorem shows_isSpanned {html code : Text} (h : IsSpanned html code) : Shows html [] := by
  obtain ⟨spans, rfl, -⟩ := h
  exact shows_spansHtml spans

theorem scalarHtml_spec (expanded : Text → Bool) (k : Nat) (value : Text) :
    (scalarHtml (some expanded) k value).Asks ((placeOf (candidate value) k).map idAt) ∧
      Shows (scalarHtml (some expanded) k value).value (placeOf (candidate value) k) := by
  have hasks := asks_offer expanded (candidate value) value k 0
  have hshows := shows_offer expanded (candidate value) value k 0
    (shows_isSpanned (isSpanned_wrap (scalarClass value) value))
  show Report.Asks (offer expanded (candidate value) value k 0 >>= _) _ ∧
    Shows (offer expanded (candidate value) value k 0 >>= _).value _
  generalize offer expanded (candidate value) value k 0 = offered at hasks hshows ⊢
  rw [Report.value_bind]
  cases hvalue : offered.value with
  | none =>
    rw [hvalue] at hshows
    exact ⟨hasks.bind_nil (by rw [hvalue]; exact Report.asks_pure _), hshows⟩
  | some html =>
    rw [hvalue] at hshows
    exact ⟨hasks.bind_nil (by rw [hvalue]; exact Report.asks_pure _), hshows⟩

/-- The place on a line does not depend on the predicate, nor does the mode behind it. -/
theorem exists_linePlaces (mode : Mode) (line : Text) (next : Option Text) :
    ∃ places : Nat → List Nat,
      (∀ expanded offset,
        (lineHtml (some expanded) mode offset line next).Asks ((places offset).map idAt) ∧
        Shows (lineHtml (some expanded) mode offset line next).value.1 (places offset) ∧
        (lineHtml (some expanded) mode offset line next).value.2 =
          (lineHtml none mode 0 line next).value.2) ∧
      ∀ offset, places offset = [] ∨
        ∃ head value, places offset = [offset + head.length] ∧ line = head ++ value ∧
          HoldsValue mode head value := by
  rcases lineHtml_cases mode line next with
    ⟨html, after, hhtml, hline⟩ | ⟨hfresh, head, value, rfl, hne, hintroduces, html, hhtml, hline⟩
  · refine ⟨fun _ => [], fun expanded offset => ?_, fun offset => .inl rfl⟩
    rw [show lineHtml (some expanded) mode offset line next = _ from hline _ _,
      show lineHtml none mode 0 line next = _ from hline _ _]
    exact ⟨Report.asks_pure _, shows_isSpanned hhtml, rfl⟩
  · refine ⟨fun offset => placeOf (candidate value) (offset + head.length), fun expanded offset => ?_,
      fun offset => ?_⟩
    · obtain ⟨hasks, hshows⟩ := scalarHtml_spec expanded (offset + head.length) value
      rw [show lineHtml (some expanded) mode offset (head ++ value) next = _ from hline _ _,
        show lineHtml none mode 0 (head ++ value) next = _ from hline _ _]
      exact ⟨hasks.bind_nil (Report.asks_pure _), (shows_isSpanned hhtml).append hshows, rfl⟩
    · unfold placeOf
      split
      · next hholds => exact .inr ⟨head, value, rfl, rfl, hfresh, hintroduces, hne, hholds⟩
      · exact .inl rfl

theorem StartsOn.le {mode : Mode} {offset k : Nat} {lines : List Text} (h : StartsOn mode offset lines k) :
    offset ≤ k := by
  obtain ⟨-, -, -, -, -, -, rfl⟩ := h
  exact Nat.le_add_right _ _

/-- A place on a later line. -/
theorem StartsOn.below {mode : Mode} {offset k : Nat} {line : Text} {rest : List Text}
    (h : StartsOn (lineHtml none mode 0 line rest.head?).value.2 (offset + line.length + 1) rest k) :
    StartsOn mode offset (line :: rest) k := by
  obtain ⟨above, head, value, below, rfl, hmode, rfl⟩ := h
  refine ⟨line :: above, head, value, below, rfl, hmode, ?_⟩
  rw [List.cons_append, Text.unlines_cons line (by simp)]
  simp only [List.length_append, List.length_cons]
  omega

theorem shows_unlines_cons {html : Text} {htmls : List Text} {places more : List Nat}
    (h : Shows html places) (hmore : Shows (Text.unlines htmls) more) (hnil : htmls = [] → more = []) :
    Shows (Text.unlines (html :: htmls)) (places ++ more) := by
  by_cases hhtmls : htmls = []
  · rw [hhtmls, hnil hhtmls, List.append_nil, Text.unlines, List.intercalate_singleton]
    exact h
  · rw [Text.unlines_cons html hhtmls]
    exact h.append ((shows_escape ['\n']).append hmore)

theorem exists_places (mode : Mode) (offset : Nat) (lines : List Text) :
    ∃ places, (∀ expanded, (linesHtml (some expanded) mode offset lines).Asks (places.map idAt) ∧
        Shows (Text.unlines (linesHtml (some expanded) mode offset lines).value) places) ∧
      places.Pairwise (· < ·) ∧ ∀ k ∈ places, StartsOn mode offset lines k := by
  induction lines generalizing mode offset with
  | nil => exact ⟨[], fun _ => ⟨Report.asks_pure _, shows_escape []⟩, .nil, by simp⟩
  | cons line rest ih =>
    obtain ⟨first, hfirst, hplace⟩ := exists_linePlaces mode line rest.head?
    obtain ⟨more, hmore, hsorted, hstarts⟩ :=
      ih (lineHtml none mode 0 line rest.head?).value.2 (offset + line.length + 1)
    refine ⟨first offset ++ more, fun expanded => ?_, ?_, fun k hk => ?_⟩
    · obtain ⟨hasks, hshows, hmode⟩ := hfirst expanded offset
      obtain ⟨hasksMore, hshowsMore⟩ := hmore expanded
      -- The rest starts in the mode that this predicate leaves, which is that of all.
      rw [← hmode] at hasksMore hshowsMore
      rw [linesHtml, List.map_append]
      refine ⟨hasks.bind (hasksMore.bind_nil (Report.asks_pure _)), ?_⟩
      refine shows_unlines_cons hshows hshowsMore fun hnil => ?_
      rw [linesHtml_eq_nil] at hnil
      subst hnil
      exact List.eq_nil_iff_forall_not_mem.mpr fun k hk => by
        obtain ⟨above, head, value, below, hlines, -⟩ := hstarts k hk
        simp at hlines
    · refine List.pairwise_append.mpr ⟨?_, hsorted, fun a ha b hb => ?_⟩
      · rcases hplace offset with hnone | ⟨head, value, hone, -⟩
        · rw [hnone]
          exact .nil
        · rw [hone]
          exact List.pairwise_singleton _ _
      · have hle := (hstarts b hb).le
        rcases hplace offset with hnone | ⟨head, value, hone, rfl, -⟩
        · rw [hnone] at ha
          cases ha
        · rw [hone] at ha
          obtain rfl := List.mem_singleton.mp ha
          rw [List.length_append] at hle
          omega
    · rcases List.mem_append.mp hk with hk | hk
      · rcases hplace offset with hnone | ⟨head, value, hone, rfl, hholds⟩
        · rw [hnone] at hk
          cases hk
        · rw [hone] at hk
          obtain rfl := List.mem_singleton.mp hk
          refine ⟨[], head, value, rest, rfl, ⟨mode, rfl, hholds⟩, ?_⟩
          simp [Text.unlines, List.intercalate]
      · exact (hstarts k hk).below

/-- An offset of YAML source at which a value starts that holds an object or an array. The value goes
to the end of its line, and what stands in front of it on the line introduces it. -/
def StartsValue (code : Text) (k : Nat) : Prop :=
  ∃ above head value below, Text.lines code = above ++ (head ++ value) :: below ∧
    (∃ m, (modes .plain (Text.lines code))[above.length]? = some m ∧ HoldsValue m head value) ∧
    code.take k = Text.unlines (above ++ [head]) ∧ code.drop k = Text.unlines (value :: below)

/-- Lines that are cut within one of them. -/
theorem unlines_cut (above : List Text) (head value : Text) (below : List Text) :
    Text.unlines (above ++ (head ++ value) :: below) =
      Text.unlines (above ++ [head]) ++ Text.unlines (value :: below) := by
  induction above with
  | nil =>
    by_cases hbelow : below = []
    · subst hbelow
      simp [Text.unlines, List.intercalate]
    · rw [List.nil_append, Text.unlines_cons _ hbelow, Text.unlines_cons _ hbelow]
      simp [Text.unlines, List.intercalate]
  | cons line above ih =>
    rw [List.cons_append, List.cons_append, Text.unlines_cons line (by simp),
      Text.unlines_cons line (by simp), ih]
    simp

theorem startsValue_of_startsOn {code : Text} {k : Nat} (h : StartsOn .plain 0 (Text.lines code) k) :
    StartsValue code k := by
  obtain ⟨above, head, value, below, hlines, hmode, hk⟩ := h
  rw [Nat.zero_add] at hk
  have hcode : code = Text.unlines (above ++ [head]) ++ Text.unlines (value :: below) := by
    rw [← unlines_cut, ← hlines, Text.unlines_lines]
  refine ⟨above, head, value, below, hlines, hmode, ?_, ?_⟩
  · rw [hcode, List.take_left' hk.symm]
  · rw [hcode, List.drop_left' hk.symm]

end Yaml

open Nested

/-- **Toggles are stable.** For any code, the predicate is asked about the same identifiers whatever it
answers, in increasing order, and each is written once around a toggle and once in it. In JSON they are
those of places at which a string opens, in YAML those of places at which a value of one line starts. -/
theorem toggles_stable (code : Text) :
    (∃ places, Stable (fun expanded => Json.highlight (some expanded) code) places ∧
      ∀ k ∈ places, Json.OpensString code k) ∧
    ∃ places, Stable (fun expanded => Yaml.highlight (some expanded) code) places ∧
      ∀ k ∈ places, Yaml.StartsValue code k := by
  constructor
  · have hsolid : ∀ s ∈ Json.spans code, s.text ≠ [] :=
      fun s hs => Text.text_ne_nil_of_mem_segment Json.step hs
    have hsorted := Json.pairwise_togglePlaces hsolid 0
    exact ⟨_, stable_of_shows hsorted fun expanded => Json.highlight_spec expanded code,
      fun k hk => Json.opensString_of_mem hk⟩
  · obtain ⟨places, hplaces, hsorted, hstarts⟩ := Yaml.exists_places .plain 0 (Text.lines code)
    refine ⟨places, stable_of_shows hsorted fun expanded => ?_,
      fun k hk => Yaml.startsValue_of_startsOn (hstarts k hk)⟩
    obtain ⟨hasks, hshows⟩ := hplaces expanded
    exact ⟨hasks.bind_nil (Report.asks_pure _), hshows⟩

/-- The string in the array is no key and holds an array itself. -/
example : ∀ answer, (Json.highlight (some fun _ => answer)
    "\x7b\"[]\": [\"[1]\"]\x7d".toList).questions = ["nj-8".toList] := by
  decide +kernel

/-- The second line goes on with a block, so it has no value. -/
example : ∀ answer, (Yaml.highlight (some fun _ => answer)
    "a: |\n  b: [1]\nc: [2]".toList).questions = ["nj-17".toList] := by
  decide +kernel

end Highlight

end Markdown
