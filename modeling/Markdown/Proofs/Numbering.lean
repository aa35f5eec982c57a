import Markdown.Document
import Mathlib.Data.List.Dedup

/-!
# Numbers of footnotes

The definitions of a session are made by single calls, or they are taken out of texts, any number at a
time. `References.Numbered` ties them to the identifiers that have been defined since the last
reset: the next number counts them, and each footnote has the place of the last definition of its
identifier as its number. Every definition keeps this (`Numbered.define`), hence every call
(`Numbered.act`) and every session (`numbered_session`).
-/

namespace Markdown.References

/-! ### The definitions among lines -/

/-- The definitions among some lines, in order. Inside fences there are none. -/
def definitionsAmong (fenced : Bool) : List Text → List DefinitionLine
  | [] => []
  | line :: r =>
    if Line.isFence line then definitionsAmong (!fenced) r
    else if fenced then definitionsAmong fenced r
    else (definitionLine? line).toList ++ definitionsAmong fenced r

/-- Taking definitions out of lines makes them one after another. -/
theorem snd_extractLines (s : References) (fenced : Bool) (lines : List Text) :
    (s.extractLines fenced lines).2 = (definitionsAmong fenced lines).foldl define s := by
  induction lines generalizing s fenced with
  | nil => rfl
  | cons line r ih =>
    rw [extractLines, definitionsAmong]
    split
    · exact ih s (!fenced)
    · split
      · exact ih s fenced
      · split
        · next d hd =>
          rw [hd]
          exact ih (s.define d) fenced
        · next hd =>
          rw [hd]
          exact ih s fenced

/-- The identifier of the footnote that a line defines. -/
def DefinitionLine.footnoteId? : DefinitionLine → Option Text
  | .link .. => none
  | .footnote id _ => some id

/-! ### Sessions -/

/-- A call that may change the definitions. -/
inductive Action where
  /-- Defines a link target. -/
  | setLink (id url : Text) (title : Option Text)
  /-- Defines a footnote. -/
  | setFootnote (id content : Text)
  /-- Forgets all definitions. -/
  | reset
  /-- Takes the definitions out of a text. -/
  | extract (t : Text)
  /-- Splits a value into blocks, with or without an answer. -/
  | tokenize (c : Config) (v : Json)

/-- The definitions behind a call. -/
def act (s : References) : Action → References
  | .setLink id url title => s.setLink id url title
  | .setFootnote id content => s.setFootnote id content
  | .reset => .empty
  | .extract t => (s.extract t).2
  | .tokenize c v => (Document.tokenizeValue c v s).2

/-- The definitions behind some calls; at first there are none. -/
def session (actions : List Action) : References :=
  actions.foldl act .empty

/-- The footnotes that a text defines, in order. -/
def footnoteIds (t : Text) : List Text :=
  (definitionsAmong false (Text.lines t)).filterMap DefinitionLine.footnoteId?

/-- The identifiers of the footnotes that are defined since the last reset, in the order of their
definitions, when those before a call are given. -/
def Action.defined (ids : List Text) : Action → List Text
  | .setLink .. => ids
  | .setFootnote id _ => ids ++ [id]
  | .reset => []
  | .extract t => ids ++ footnoteIds t
  | .tokenize _ (.string t) => ids ++ footnoteIds (Text.normalizeNewlines t)
  | .tokenize _ _ => ids

/-- The identifiers of the footnotes that some calls define behind the last reset, in the order of
their definitions. -/
def definedSinceReset (actions : List Action) : List Text :=
  actions.foldl Action.defined []

/-! ### Last places -/

/-- The identifiers of some definitions, each with the place of its last one; the first definition
has the given place. -/
def lastPlaces (n : Nat) : List Text → List (Text × Nat)
  | [] => []
  | id :: r => if r.contains id then lastPlaces (n + 1) r else (id, n) :: lastPlaces (n + 1) r

variable {n : Nat} {ids : List Text}

theorem map_fst_lastPlaces (n : Nat) (ids : List Text) :
    (lastPlaces n ids).map Prod.fst = ids.dedup := by
  induction ids generalizing n with
  | nil => rfl
  | cons id r ih =>
    rw [lastPlaces]
    split
    · next h => rw [List.dedup_cons_of_mem (List.contains_iff_mem.mp h), ih]
    · next h => rw [List.dedup_cons_of_notMem (mt List.contains_iff_mem.mpr h), List.map_cons, ih]

theorem place_mem_of_mem_lastPlaces {p : Text × Nat} (h : p ∈ lastPlaces n ids) :
    n ≤ p.2 ∧ p.2 < n + ids.length := by
  induction ids generalizing n with
  | nil => cases h
  | cons id r ih =>
    have hrest : p ∈ lastPlaces (n + 1) r → n ≤ p.2 ∧ p.2 < n + (id :: r).length := fun hp => by
      have := ih hp
      rw [List.length_cons]
      omega
    rw [lastPlaces] at h
    split at h
    · exact hrest h
    · rcases List.mem_cons.mp h with rfl | h
      · exact ⟨Nat.le_refl n, by simp⟩
      · exact hrest h

/-- A place is that of a definition behind which the identifier is not defined again. -/
theorem exists_split_of_mem_lastPlaces {p : Text × Nat} (h : p ∈ lastPlaces n ids) :
    ∃ front back, ids = front ++ p.1 :: back ∧ p.2 = n + front.length ∧ p.1 ∉ back := by
  induction ids generalizing n with
  | nil => cases h
  | cons id r ih =>
    have hrest : p ∈ lastPlaces (n + 1) r →
        ∃ front back, id :: r = front ++ p.1 :: back ∧ p.2 = n + front.length ∧ p.1 ∉ back := by
      intro hp
      obtain ⟨front, back, hr, hplace, hback⟩ := ih hp
      refine ⟨id :: front, back, by rw [hr, List.cons_append], ?_, hback⟩
      rw [hplace, List.length_cons]
      omega
    rw [lastPlaces] at h
    split at h
    · exact hrest h
    · next hid =>
      rcases List.mem_cons.mp h with rfl | h
      · exact ⟨[], r, rfl, rfl, mt List.contains_iff_mem.mpr hid⟩
      · exact hrest h

theorem pairwise_lastPlaces (n : Nat) (ids : List Text) :
    (lastPlaces n ids).Pairwise (fun p q => p.2 < q.2) := by
  induction ids generalizing n with
  | nil => exact List.Pairwise.nil
  | cons id r ih =>
    rw [lastPlaces]
    split
    · exact ih (n + 1)
    · exact List.pairwise_cons.mpr ⟨fun p hp => (place_mem_of_mem_lastPlaces hp).1, ih (n + 1)⟩

theorem nodup_places (n : Nat) (ids : List Text) : ((lastPlaces n ids).map Prod.snd).Nodup :=
  List.pairwise_map.mpr ((pairwise_lastPlaces n ids).imp Nat.ne_of_lt)

/-- One more definition: its identifier moves to the end. -/
theorem lastPlaces_concat (n : Nat) (ids : List Text) (id : Text) :
    lastPlaces n (ids ++ [id]) =
      (lastPlaces n ids).filter (fun p => p.1 ≠ id) ++ [(id, n + ids.length)] := by
  induction ids generalizing n with
  | nil => simp [lastPlaces]
  | cons d r ih =>
    have hplace : n + 1 + r.length = n + (d :: r).length := by
      rw [List.length_cons]
      omega
    rw [List.cons_append, lastPlaces, lastPlaces, ih, hplace]
    by_cases hr : d ∈ r
    · simp [hr]
    · by_cases hd : d = id
      · subst hd
        simp [hr]
      · simp [hd, hr]

/-- Without a second definition of an identifier, the places count the definitions. -/
theorem lastPlaces_of_nodup (h : ids.Nodup) : lastPlaces n ids = ids.zipIdx n := by
  induction ids generalizing n with
  | nil => rfl
  | cons id r ih =>
    obtain ⟨hid, hr⟩ := List.nodup_cons.mp h
    rw [lastPlaces, if_neg (mt List.contains_iff_mem.mp hid), ih hr, List.zipIdx_cons]

/-- The last definition of all has the last place. -/
theorem getLast?_lastPlaces (hne : ids ≠ []) :
    ∃ id, (lastPlaces 1 ids).getLast? = some (id, ids.length) := by
  obtain ⟨front, id, rfl⟩ := List.eq_nil_or_concat' ids |>.resolve_left hne
  refine ⟨id, ?_⟩
  rw [lastPlaces_concat, List.getLast?_concat, List.length_append, List.length_singleton,
    Nat.add_comm]

/-- Places are positions exactly if no identifier is defined twice. -/
theorem places_are_positions_iff :
    (∀ (i : Nat) (p : Text × Nat), (lastPlaces 1 ids)[i]? = some p → p.2 = i + 1) ↔ ids.Nodup := by
  constructor
  · intro h
    by_cases hne : ids = []
    · subst hne
      exact List.nodup_nil
    · obtain ⟨id, hlast⟩ := getLast?_lastPlaces hne
      have hpos : 0 < (lastPlaces 1 ids).length :=
        List.length_pos_of_mem (List.mem_of_getLast? hlast)
      have hplace : ids.length = (lastPlaces 1 ids).length - 1 + 1 :=
        h _ (id, ids.length) (by rw [← List.getLast?_eq_getElem?, hlast])
      have hdedup : ids.dedup.length = ids.length := by
        rw [← map_fst_lastPlaces 1, List.length_map]
        omega
      rw [← (List.dedup_sublist ids).eq_of_length hdedup]
      exact List.nodup_dedup ids
  · intro h i p hp
    rw [lastPlaces_of_nodup h, List.getElem?_zipIdx] at hp
    obtain ⟨id, -, rfl⟩ := Option.map_eq_some_iff.mp hp
    exact Nat.add_comm 1 i

/-! ### What each definition keeps -/

/-- The footnotes belong to the definitions of some identifiers, in order: the next number counts
the definitions, and a footnote has the place of the last definition of its identifier. -/
structure Numbered (ids : List Text) (s : References) : Prop where
  /-- The next number. -/
  next_eq : s.next = ids.length + 1
  /-- Footnotes stand under their identifiers. -/
  key_eq : ∀ e ∈ s.notes, e.1 = e.2.id
  /-- The numbers of the footnotes. -/
  places : (s.notes.map fun e => (e.1, e.2.index)).Perm (lastPlaces 1 ids)

variable {s : References}

theorem numbered_empty : Numbered [] empty :=
  ⟨rfl, by simp [empty], List.Perm.refl _⟩

theorem Numbered.nodup_keys (h : Numbered ids s) : (s.notes.map Prod.fst).Nodup := by
  have hperm := h.places.map Prod.fst
  rw [map_fst_lastPlaces, List.map_map] at hperm
  exact hperm.nodup_iff.mpr (List.nodup_dedup ids)

theorem Numbered.nodup_indices (h : Numbered ids s) : (s.notes.map fun e => e.2.index).Nodup := by
  have hperm := h.places.map Prod.snd
  rw [List.map_map] at hperm
  exact hperm.nodup_iff.mpr (nodup_places 1 ids)

theorem Numbered.index_lt_next (h : Numbered ids s) {e : Text × Footnote} (he : e ∈ s.notes) :
    1 ≤ e.2.index ∧ e.2.index < s.next := by
  have hplace := place_mem_of_mem_lastPlaces (h.places.subset (List.mem_map_of_mem he))
  rwa [Nat.add_comm 1, ← h.next_eq] at hplace

/-- A value under a key takes the place of the earlier one. -/
theorem put_perm {β : Type} {entries : List (Text × β)} (h : (entries.map Prod.fst).Nodup)
    (key : Text) (v : β) :
    (put entries key v).Perm (entries.filter (fun e => e.1 ≠ key) ++ [(key, v)]) := by
  induction entries with
  | nil => exact List.Perm.refl _
  | cons e r ih =>
    obtain ⟨he, hr⟩ := List.nodup_cons.mp h
    rw [put]
    by_cases hkey : e.1 = key
    · have hothers : r.filter (fun d => d.1 ≠ key) = r := by
        refine List.filter_eq_self.mpr fun d hd => decide_eq_true fun heq => he ?_
        exact List.mem_map.mpr ⟨d, hd, heq.trans hkey.symm⟩
      rw [if_pos (by simp [hkey]), List.filter_cons_of_neg (by simp [hkey]), hothers]
      exact (List.perm_append_singleton _ _).symm
    · rw [if_neg (by simp [hkey]), List.filter_cons_of_pos (by simp [hkey]), List.cons_append]
      exact (ih hr).cons e

theorem Numbered.setFootnote (h : Numbered ids s) (id content : Text) :
    Numbered (ids ++ [id]) (s.setFootnote id content) := by
  have hput := put_perm h.nodup_keys id (⟨id, content, s.next⟩ : Footnote)
  refine ⟨?_, fun e he => ?_, ?_⟩
  · rw [List.length_append, List.length_singleton, ← h.next_eq]
    rfl
  · rcases List.mem_append.mp (hput.subset he) with he | he
    · exact h.key_eq e (List.mem_of_mem_filter he)
    · rw [List.mem_singleton.mp he]
  · have hkept := h.places.filter fun p => p.1 ≠ id
    rw [List.filter_map] at hkept
    rw [lastPlaces_concat, Nat.add_comm 1, ← h.next_eq]
    refine (hput.map _).trans ?_
    rw [List.map_append]
    exact hkept.append_right _

/-- A definition in a line. -/
theorem Numbered.define (h : Numbered ids s) (d : DefinitionLine) :
    Numbered (ids ++ d.footnoteId?.toList) (s.define d) := by
  cases d with
  | link id url title =>
    rw [DefinitionLine.footnoteId?, Option.toList_none, List.append_nil]
    exact ⟨h.next_eq, h.key_eq, h.places⟩
  | footnote id content => exact h.setFootnote id content

theorem Numbered.foldl_define (h : Numbered ids s) (ds : List DefinitionLine) :
    Numbered (ids ++ ds.filterMap DefinitionLine.footnoteId?) (ds.foldl References.define s) := by
  induction ds generalizing ids s with
  | nil => simpa using h
  | cons d ds ih =>
    have hrest := ih (h.define d)
    rw [List.append_assoc] at hrest
    cases hd : d.footnoteId? <;> simpa [hd] using hrest

theorem Numbered.extract (h : Numbered ids s) (t : Text) :
    Numbered (ids ++ footnoteIds t) (s.extract t).2 := by
  have hlines := h.foldl_define (definitionsAmong false (Text.lines t))
  rwa [← snd_extractLines] at hlines

theorem Numbered.tokenize (h : Numbered ids s) (c : Config) (t : Text) :
    Numbered (ids ++ footnoteIds (Text.normalizeNewlines t)) (Document.tokenize c t s).2 := by
  unfold Document.tokenize
  split
  · next hempty =>
    obtain rfl := List.isEmpty_iff.mp hempty
    have hnone : footnoteIds (Text.normalizeNewlines []) = [] := by decide
    rwa [hnone, List.append_nil]
  · exact h.extract _

/-- The step of a session. -/
theorem Numbered.act (h : Numbered ids s) (a : Action) : Numbered (a.defined ids) (s.act a) := by
  cases a with
  | setLink id url title => exact ⟨h.next_eq, h.key_eq, h.places⟩
  | setFootnote id content => exact h.setFootnote id content
  | reset => exact numbered_empty
  | extract t => exact h.extract t
  | tokenize c v =>
    cases v with
    | string t => exact h.tokenize c t
    | _ =>
      unfold References.act Document.tokenizeValue Action.defined
      dsimp only
      split <;> exact h

theorem numbered_session (actions : List Action) :
    Numbered (definedSinceReset actions) (session actions) := by
  have hgeneral : ∀ (actions : List Action) (ids : List Text) (s : References), Numbered ids s →
      Numbered (actions.foldl Action.defined ids) (actions.foldl References.act s) := by
    intro actions
    induction actions with
    | nil => exact fun _ _ h => h
    | cons a actions ih => exact fun _ _ h => ih _ _ (h.act a)
  exact hgeneral actions [] .empty numbered_empty

/-! ### The order of the footnotes -/

/-- The footnotes in order, with their numbers. -/
theorem Numbered.map_sortedFootnotes (h : Numbered ids s) :
    (s.sortedFootnotes.map fun f => (f.id, f.index)) = lastPlaces 1 ids := by
  have hsorted : s.sortedFootnotes.Pairwise (fun a b => a.index ≤ b.index) := by
    let le := fun a b : Footnote => decide (a.index ≤ b.index)
    have htrans : ∀ a b c, le a b → le b c → le a c := fun a b c hab hbc =>
      decide_eq_true (Nat.le_trans (of_decide_eq_true hab) (of_decide_eq_true hbc))
    have htotal : ∀ a b, le a b || le b a := fun a b => by
      simpa only [le, Bool.or_eq_true, decide_eq_true_eq] using Nat.le_total a.index b.index
    exact (List.pairwise_mergeSort htrans htotal (s.notes.map (·.2))).imp of_decide_eq_true
  have hperm : (s.sortedFootnotes.map fun f => (f.id, f.index)).Perm (lastPlaces 1 ids) := by
    have hnotes : (s.notes.map fun e => (e.1, e.2.index)) =
        (s.notes.map (·.2)).map fun f => (f.id, f.index) := by
      rw [List.map_map]
      exact List.map_congr_left fun e he => by rw [h.key_eq e he]; rfl
    exact ((List.mergeSort_perm _ _).map _).trans (hnotes ▸ h.places)
  -- Both lists are sorted by the number, and no two definitions have the same place.
  have hsorted : (s.sortedFootnotes.map fun f => (f.id, f.index)).Pairwise (·.2 ≤ ·.2) :=
    List.pairwise_map.mpr hsorted
  refine hperm.eq_of_pairwise (fun p q hp hq hpq hqp => ?_) hsorted
    ((pairwise_lastPlaces 1 ids).imp Nat.le_of_lt)
  exact List.inj_on_of_nodup_map (nodup_places 1 ids) (hperm.subset hp) hq (Nat.le_antisymm hpq hqp)

theorem Numbered.pairwise_sortedFootnotes (h : Numbered ids s) :
    s.sortedFootnotes.Pairwise (fun a b => a.index < b.index) := by
  have hpairs := pairwise_lastPlaces 1 ids
  rwa [← h.map_sortedFootnotes, List.pairwise_map] at hpairs

theorem Numbered.map_id_sortedFootnotes (h : Numbered ids s) :
    s.sortedFootnotes.map Footnote.id = ids.dedup := by
  rw [← map_fst_lastPlaces 1 ids, ← h.map_sortedFootnotes, List.map_map]
  rfl

/-- The number of a footnote is the place of the last definition of its identifier. -/
theorem Numbered.exists_last_definition (h : Numbered ids s) {f : Footnote}
    (hf : f ∈ s.sortedFootnotes) :
    ∃ front back, ids = front ++ f.id :: back ∧ f.index = front.length + 1 ∧ f.id ∉ back := by
  have hplace : (f.id, f.index) ∈ lastPlaces 1 ids :=
    h.map_sortedFootnotes ▸ List.mem_map_of_mem hf
  obtain ⟨front, back, hids, hindex, hback⟩ := exists_split_of_mem_lastPlaces hplace
  exact ⟨front, back, hids, hindex.trans (Nat.add_comm 1 _), hback⟩

theorem Numbered.indices_are_positions_iff (h : Numbered ids s) :
    (∀ (i : Nat) (f : Footnote), s.sortedFootnotes[i]? = some f → f.index = i + 1) ↔ ids.Nodup := by
  rw [← places_are_positions_iff, ← h.map_sortedFootnotes]
  constructor
  · intro hpos i p hp
    rw [List.getElem?_map] at hp
    obtain ⟨f, hf, rfl⟩ := Option.map_eq_some_iff.mp hp
    exact hpos i f hf
  · intro hpos i f hf
    exact hpos i (f.id, f.index) (by rw [List.getElem?_map, hf]; rfl)

/-- **Numbers of footnotes in a session.** Behind any calls, each footnote stands under its
identifier, once; the numbers are distinct and lie between 1 and the last number given; the
numbers given count the definitions since the last reset. In the order of their numbers, which
increase, the footnotes stand in the order of their last definitions, and the place of that
definition is the number. All numbers are positions in this order exactly if no identifier has
been defined twice. -/
theorem numbers_of_session (actions : List Action) :
    let s := session actions
    let ids := definedSinceReset actions
    (∀ e ∈ s.notes, e.1 = e.2.id) ∧
    (s.notes.map Prod.fst).Nodup ∧
    (s.notes.map fun e => e.2.index).Nodup ∧
    (∀ e ∈ s.notes, 1 ≤ e.2.index ∧ e.2.index < s.next) ∧
    s.next = ids.length + 1 ∧
    s.sortedFootnotes.Pairwise (fun a b => a.index < b.index) ∧
    s.sortedFootnotes.map Footnote.id = ids.dedup ∧
    (∀ f ∈ s.sortedFootnotes, ∃ front back,
      ids = front ++ f.id :: back ∧ f.index = front.length + 1 ∧ f.id ∉ back) ∧
    ((∀ (i : Nat) (f : Footnote), s.sortedFootnotes[i]? = some f → f.index = i + 1) ↔ ids.Nodup) := by
  intro s ids
  have h : Numbered ids s := numbered_session actions
  exact ⟨h.key_eq, h.nodup_keys, h.nodup_indices, fun e he => h.index_lt_next he, h.next_eq,
    h.pairwise_sortedFootnotes, h.map_id_sortedFootnotes, fun f hf => h.exists_last_definition hf,
    h.indices_are_positions_iff⟩

/-- A footnote that is defined a second time stays where it is stored and takes a new number. -/
example :
    (session [.setFootnote ['a'] [], .extract "[^b]: 2\n[^a]: 3".toList]).notes.map
      (fun e => (e.1, e.2.index)) = [(['a'], 3), (['b'], 2)] := by
  decide +kernel

end Markdown.References
