import Markdown.Proofs.Digits
import Markdown.Proofs.InlineGuard
import Mathlib.Algebra.Group.Nat.Defs

/-!
# Runs of digits in inline text

No rule of the inline text makes a run of digits longer: what a rule writes has no digit at either
end. So the numbers between the marks of code spans are as short as the runs in the text itself, and
putting the code spans back is no fault.
-/

namespace Markdown

open Text

variable {n : Nat}

/-! ### Reports without faults -/

namespace Report

variable {α β : Type}

/-- No fault is noted. -/
def IsClean (x : Report α) : Prop :=
  ∀ f, .failed f ∉ x.notes

@[simp] theorem isClean_pure (a : α) : (pure a : Report α).IsClean := by
  intro f
  simp

theorem isClean_bind_iff {x : Report α} {f : α → Report β} :
    (x >>= f).IsClean ↔ x.IsClean ∧ (f x.value).IsClean := by
  simp only [IsClean, notes_bind, List.mem_append, not_or, forall_and]

theorem IsClean.bind {x : Report α} {f : α → Report β} (hx : x.IsClean)
    (hf : ∀ a, (f a).IsClean) : (x >>= f).IsClean :=
  isClean_bind_iff.mpr ⟨hx, hf x.value⟩

theorem isClean_map_iff {x : Report α} {f : α → β} : (f <$> x).IsClean ↔ x.IsClean := by
  simp only [IsClean, notes_map]

theorem isClean_mapM {f : α → Report β} {l : List α} (h : ∀ a ∈ l, (f a).IsClean) :
    (l.mapM f).IsClean := by
  induction l with
  | nil => simp
  | cons a l ih =>
    obtain ⟨ha, hl⟩ := List.forall_mem_cons.mp h
    rw [List.mapM_cons]
    exact ha.bind fun b => (ih hl).bind fun bs => isClean_pure _

theorem isClean_log (e : LogEntry) : (log e).IsClean := by
  intro f
  simp [log, note]

theorem firstFault_eq_none_iff {ns : List Note} :
    firstFault ns = none ↔ ∀ f, .failed f ∉ ns := by
  rw [firstFault, List.findSome?_eq_none_iff]
  constructor
  · intro h f hf
    simpa using h _ hf
  · intro h a ha
    cases a with
    | failed f => exact absurd ha (h f)
    | _ => rfl

/-- A caller gets a value exactly if no fault is noted. -/
theorem exists_answer_eq_ok_iff {x : Report α} : (∃ a, x.answer = .ok a) ↔ x.IsClean := by
  rw [IsClean, ← firstFault_eq_none_iff, answer]
  cases firstFault x.notes <;> simp

theorem value_of_answer {x : Report α} {a : α} (h : x.answer = .ok a) : x.value = a := by
  unfold answer at h
  split at h
  · cases h
  · exact Except.ok.inj h

/-- Without a fault the answer is the value. -/
theorem IsClean.answer_eq {x : Report α} (h : x.IsClean) : x.answer = .ok x.value := by
  rw [answer, firstFault_eq_none_iff.mpr h]

/-- Without a fault a caller sees all notes. -/
theorem IsClean.untilFault_notes {x : Report α} (h : x.IsClean) : untilFault x.notes = x.notes := by
  refine List.takeWhile_eq_self_iff.mpr fun n hn => ?_
  cases n with
  | failed f => exact absurd hn (h f)
  | _ => rfl

end Report

/-! ### Reports with faults of some kinds -/

namespace Report

variable {α β : Type} {p q : Fault → Prop}

/-- All faults that are noted satisfy `p`. -/
def FailsWithin (p : Fault → Prop) (x : Report α) : Prop :=
  ∀ f, .failed f ∈ x.notes → p f

theorem isClean_iff_failsWithin {x : Report α} : x.IsClean ↔ x.FailsWithin fun _ => False :=
  Iff.rfl

theorem IsClean.failsWithin {x : Report α} (h : x.IsClean) : x.FailsWithin p :=
  fun f hf => absurd hf (h f)

theorem failsWithin_pure (a : α) : (pure a : Report α).FailsWithin p :=
  (isClean_pure a).failsWithin

/-- A fault in front of a value. -/
theorem failsWithin_fail_bind {f : Fault} (h : p f) (a : α) :
    (fail f >>= fun _ => pure a).FailsWithin p := by
  rintro g hg
  obtain rfl : g = f := by simpa [fail, note] using hg
  exact h

theorem FailsWithin.mono {x : Report α} (h : x.FailsWithin p) (hpq : ∀ f, p f → q f) :
    x.FailsWithin q :=
  fun f hf => hpq f (h f hf)

theorem FailsWithin.bind {x : Report α} {f : α → Report β} (hx : x.FailsWithin p)
    (hf : ∀ a, (f a).FailsWithin p) : (x >>= f).FailsWithin p := by
  intro g hg
  rcases List.mem_append.mp hg with hg | hg
  · exact hx g hg
  · exact hf x.value g hg

theorem FailsWithin.map {x : Report α} (hx : x.FailsWithin p) (f : α → β) :
    (f <$> x).FailsWithin p := by
  intro g hg
  rw [notes_map] at hg
  exact hx g hg

theorem failsWithin_mapM {f : α → Report β} {l : List α} (h : ∀ a ∈ l, (f a).FailsWithin p) :
    (l.mapM f).FailsWithin p := by
  intro g hg
  rw [notes_mapM] at hg
  obtain ⟨a, ha, hg⟩ := List.mem_flatMap.mp hg
  exact h a ha g hg

/-- A caller gets the value or one of the faults. -/
theorem FailsWithin.answer {x : Report α} (h : x.FailsWithin p) :
    x.answer = .ok x.value ∨ ∃ f, p f ∧ x.answer = .error f := by
  cases hfault : firstFault x.notes with
  | none => exact .inl (by rw [Report.answer, hfault])
  | some f =>
    obtain ⟨note, hnote, heq⟩ := List.exists_of_findSome?_eq_some hfault
    refine .inr ⟨f, h f ?_, by rw [Report.answer, hfault]⟩
    cases note with
    | failed g => exact Option.some.inj heq ▸ hnote
    | _ => cases heq

end Report

namespace References

/-- The targets have no longer runs of digits, nor have the numbers of footnotes. -/
structure RunsWithin (n : Nat) (s : References) : Prop where
  /-- The targets of links. -/
  links : ∀ e ∈ s.links, Text.RunsWithin n e.2.url ∧ ∀ t ∈ e.2.title, Text.RunsWithin n t
  /-- The numbers of footnotes. -/
  notes : ∀ e ∈ s.notes, Text.RunsWithin n (ofNat e.2.index)

theorem exists_of_find? {β : Type} {entries : List (Text × β)} {key : Text} {v : β}
    (h : find? entries key = some v) : ∃ e ∈ entries, e.2 = v := by
  obtain ⟨e, he, rfl⟩ := Option.map_eq_some_iff.mp h
  exact ⟨e, List.mem_of_find?_eq_some he, rfl⟩

theorem RunsWithin.link {s : References} (h : s.RunsWithin n) {id : Text} {t : LinkTarget}
    (ht : s.link? id = some t) : Text.RunsWithin n t.url ∧ ∀ title ∈ t.title, Text.RunsWithin n title := by
  obtain ⟨e, he, rfl⟩ := exists_of_find? ht
  exact h.links e he

theorem RunsWithin.footnote {s : References} (h : s.RunsWithin n) {id : Text} {f : Footnote}
    (hf : s.footnote? id = some f) : Text.RunsWithin n (ofNat f.index) := by
  obtain ⟨e, he, rfl⟩ := exists_of_find? hf
  exact h.notes e he

end References

namespace Inline

/-! ### Texts that rules write -/

/-- No range of a table that leaves out the beginning of the private use area has a character there. -/
theorem notMem_range_of_private {ranges : List (Nat × Nat)}
    (h : ranges.all (fun r => r.2 < 0xe000 || 0xe200 ≤ r.1) = true) {c : Char}
    (hlow : 0xe000 ≤ c.toNat) (hhigh : c.toNat < 0xe200) :
    ∀ r ∈ ranges, ¬ (r.1 ≤ c.toNat && c.toNat ≤ r.2) = true := by
  intro r hr
  have hr := List.all_eq_true.mp h r hr
  simp only [Bool.or_eq_true, decide_eq_true_eq, Bool.and_eq_true] at hr ⊢
  omega

theorem isLetter_of_private {c : Char} (hlow : 0xe000 ≤ c.toNat) (hhigh : c.toNat < 0xe200) :
    isLetter c = false := by
  have hranges : letterRanges.all (fun r => r.2 < 0xe000 || 0xe200 ≤ r.1) = true := by
    unfold letterRanges readRanges readNumbers
    rw [String.toList_ofList]
    decide +kernel
  rw [isLetter, if_neg (by omega), inRanges, List.any_eq_false]
  exact notMem_range_of_private hranges hlow hhigh

theorem isDigit_of_private {c : Char} (hlow : 0xe000 ≤ c.toNat) (hhigh : c.toNat < 0xe200) :
    isDigit c = false := by
  have hranges : digitRanges.all (fun r => r.2 < 0xe000 || 0xe200 ≤ r.1) = true := by
    unfold digitRanges readRanges readNumbers
    rw [String.toList_ofList]
    decide +kernel
  have hnone : digitRanges.find? (fun r => r.1 ≤ c.toNat && c.toNat ≤ r.2) = none :=
    List.find?_eq_none.mpr (notMem_range_of_private hranges hlow hhigh)
  simp [isDigit, digitValue?, show ¬ c.toNat < 0x80 by omega, hnone]

theorem digitless_facts :
    (linkTexts ++ lineTexts ++ spanNames.flatMap tagPair).all isDigitless = true := by
  unfold linkTexts lineTexts spanNames
  repeat rw [String.toList_ofList]
  decide +kernel

theorem enclosed_linkTexts {t : Text} (h : t ∈ linkTexts) : Enclosed n t :=
  enclosed_of_isDigitless (List.all_eq_true.mp digitless_facts t (by simp [h]))

theorem enclosed_lineTexts {t : Text} (h : t ∈ lineTexts) : Enclosed n t :=
  enclosed_of_isDigitless (List.all_eq_true.mp digitless_facts t (by simp [h]))

theorem enclosed_element {name : String} (hname : name.toList ∈ spanNames) {t : Text}
    (ht : RunsWithin n t) : Enclosed n (element name t) := by
  have htag : ∀ tag ∈ tagPair name.toList, Enclosed n tag := fun tag htag =>
    enclosed_of_isDigitless (List.all_eq_true.mp digitless_facts tag
      (List.mem_append_right _ (List.mem_flatMap.mpr ⟨_, hname, htag⟩)))
  have hsplit : element name t = '<' :: (name.toList ++ ['>']) ++
      (t ++ '<' :: '/' :: (name.toList ++ ['>'])) := by simp [element]
  rw [hsplit]
  exact (htag _ (by simp [tagPair])).around ht (htag _ (by simp [tagPair]))

theorem runsWithin_titleAttribute {title : Option Text} (h : ∀ t ∈ title, RunsWithin n t) :
    RunsWithin n (titleAttribute title) := by
  unfold titleAttribute
  split
  · next t =>
    split
    · exact runsWithin_nil
    · have hname : Enclosed n " title=\"".toList :=
        enclosed_linkTexts (by simp [-String.reduceToList, linkTexts])
      have hquote : Enclosed n ['"'] := enclosed_of_isDigitless (by decide)
      rw [List.append_assoc]
      exact (hname.around (h t rfl) hquote).runs
  · exact runsWithin_nil

theorem enclosed_anchor {url label : Text} {title : Option Text} (hurl : RunsWithin n url)
    (htitle : ∀ t ∈ title, RunsWithin n t) (hlabel : RunsWithin n label) :
    Enclosed n (anchor url title label) := by
  have hopen : Enclosed n "<a href=\"".toList :=
    enclosed_linkTexts (by simp [-String.reduceToList, linkTexts])
  have hclose : Enclosed n "</a>".toList :=
    enclosed_linkTexts (by simp [-String.reduceToList, linkTexts])
  have hsplit : ∀ a b : Text, a ++ url ++ '"' :: titleAttribute title ++ '>' :: label ++ b =
      a ++ ((url ++ '"' :: (titleAttribute title ++ '>' :: label)) ++ b) := by simp
  have hbehind : RunsWithin n (titleAttribute title ++ '>' :: label) :=
    (runsWithin_append_cons_iff (by decide)).mpr ⟨runsWithin_titleAttribute htitle, hlabel⟩
  have hinner : RunsWithin n (url ++ '"' :: (titleAttribute title ++ '>' :: label)) :=
    (runsWithin_append_cons_iff (by decide)).mpr ⟨hurl, hbehind⟩
  unfold anchor
  rw [hsplit]
  exact hopen.around hinner hclose

theorem enclosed_image {source alt : Text} {title : Option Text} (hsource : RunsWithin n source)
    (htitle : ∀ t ∈ title, RunsWithin n t) (halt : RunsWithin n alt) :
    Enclosed n (image source alt title) := by
  have hopen : Enclosed n "<img src=\"".toList :=
    enclosed_linkTexts (by simp [-String.reduceToList, linkTexts])
  have hname : Enclosed n "\" alt=\"".toList :=
    enclosed_linkTexts (by simp [-String.reduceToList, linkTexts])
  have hclose : Enclosed n " />".toList :=
    enclosed_linkTexts (by simp [-String.reduceToList, linkTexts])
  have hsplit : ∀ a m b : Text, a ++ source ++ m ++ alt ++ '"' :: titleAttribute title ++ b =
      a ++ ((source ++ (m ++ (alt ++ '"' :: titleAttribute title))) ++ b) := by simp
  have hbehind : RunsWithin n (alt ++ '"' :: titleAttribute title) :=
    (runsWithin_append_cons_iff (by decide)).mpr ⟨halt, runsWithin_titleAttribute htitle⟩
  unfold image
  rw [hsplit]
  exact hopen.around (hsource.join hname hbehind) hclose

theorem enclosed_footnoteAnchor {id : Text} {index : Nat} (hid : RunsWithin n id)
    (hindex : RunsWithin n (ofNat index)) : Enclosed n (footnoteAnchor id index) := by
  have hhead : Enclosed n "<a href=\"#fn-".toList :=
    enclosed_linkTexts (by simp [-String.reduceToList, linkTexts])
  have hname : Enclosed n "\" id=\"fnref-".toList :=
    enclosed_linkTexts (by simp [-String.reduceToList, linkTexts])
  have hclass : Enclosed n "\" class=\"footnote-ref\">[".toList :=
    enclosed_linkTexts (by simp [-String.reduceToList, linkTexts])
  have hclose : Enclosed n "]</a>".toList :=
    enclosed_linkTexts (by simp [-String.reduceToList, linkTexts])
  have hsplit : ∀ a k m b : Text, a ++ id ++ k ++ id ++ m ++ ofNat index ++ b =
      a ++ ((id ++ (k ++ (id ++ (m ++ ofNat index)))) ++ b) := by simp
  unfold footnoteAnchor
  rw [hsplit]
  exact hhead.around (hid.join hname (hid.join hclass hindex)) hclose

theorem enclosed_colorPreview {color : Text} (h : RunsWithin n color) :
    Enclosed n (colorPreview color) := by
  have hhead : Enclosed n
      "<span class=\"color-preview\"><span class=\"color-swatch\" style=\"background-color: ".toList :=
    enclosed_lineTexts (by simp [-String.reduceToList, lineTexts])
  have hmiddle : Enclosed n "\"></span>".toList :=
    enclosed_lineTexts (by simp [-String.reduceToList, lineTexts])
  have hend : Enclosed n "</span>".toList :=
    enclosed_lineTexts (by simp [-String.reduceToList, lineTexts])
  have hsplit : ∀ a m b : Text, a ++ color ++ m ++ color ++ b = a ++ ((color ++ (m ++ color)) ++ b) := by
    simp
  unfold colorPreview
  rw [hsplit]
  exact hhead.around (h.join hmiddle h) hend

/-! ### Paired marks -/

theorem encloses_longSpan {mark : Text} {words : Bool} {wrap : Text → Text} (hmark : mark ≠ [])
    (hwrap : ∀ t, RunsWithin n t → Enclosed n (wrap t)) :
    Encloses n (longSpan mark words wrap) := by
  intro before c r hit hrule hruns
  obtain ⟨inner, rest, htakes, htext, -, -⟩ := longSpan_eq_some hmark hrule
  rw [htakes.take] at hruns
  rw [htext]
  exact hwrap inner hruns.right.left

theorem encloses_shortSpan {s : SpanStyle} {wrap : Text → Text}
    (hwrap : ∀ t, RunsWithin n t → Enclosed n (wrap t)) : Encloses n (shortSpan s wrap) := by
  intro before c r hit hrule hruns
  obtain ⟨inner, rest, htakes, htext, -, -⟩ := shortSpan_eq_some hrule
  rw [htakes.take] at hruns
  rw [htext]
  exact hwrap inner hruns.tail.left

theorem encloses_emphasisRules : ∀ rule ∈ emphasisRules, Encloses n rule := by
  have hstrong : ∀ t, RunsWithin n t → Enclosed n (element "strong" t) :=
    fun t ht => enclosed_element (by simp [spanNames, -String.reduceToList]) ht
  have hem : ∀ t, RunsWithin n t → Enclosed n (element "em" t) :=
    fun t ht => enclosed_element (by simp [spanNames, -String.reduceToList]) ht
  have hboth : ∀ t, RunsWithin n t → Enclosed n (element "strong" (element "em" t)) :=
    fun t ht => hstrong _ (hem t ht).runs
  intro rule hrule
  simp only [emphasisRules, List.mem_cons, List.not_mem_nil, or_false] at hrule
  rcases hrule with rfl | rfl | rfl | rfl | rfl | rfl
  · exact encloses_longSpan (by decide) hboth
  · exact encloses_longSpan (by decide) hboth
  · exact encloses_longSpan (by decide) hstrong
  · exact encloses_longSpan (by decide) hstrong
  · exact encloses_shortSpan hem
  · exact encloses_shortSpan hem

theorem encloses_decorationRules : ∀ rule ∈ decorationRules, Encloses n rule := by
  have helement : ∀ name : String, name.toList ∈ spanNames → ∀ t, RunsWithin n t →
      Enclosed n (element name t) := fun name hname t ht => enclosed_element hname ht
  intro rule hrule
  simp only [decorationRules, List.mem_cons, List.not_mem_nil, or_false] at hrule
  rcases hrule with rfl | rfl | rfl | rfl
  · exact encloses_longSpan (by decide) (helement _ (by simp [spanNames, -String.reduceToList]))
  · exact encloses_longSpan (by decide) (helement _ (by simp [spanNames, -String.reduceToList]))
  · exact encloses_shortSpan (helement _ (by simp [spanNames, -String.reduceToList]))
  · exact encloses_shortSpan (helement _ (by simp [spanNames, -String.reduceToList]))

theorem runsWithin_applyRules {rules : List Rule} (hrules : ∀ rule ∈ rules, Encloses n rule)
    {t : Text} (h : RunsWithin n t) : RunsWithin n (applyRules rules t) := by
  induction rules generalizing t with
  | nil => exact h
  | cons rule rules ih =>
    obtain ⟨hrule, hrules⟩ := List.forall_mem_cons.mp hrules
    exact ih hrules (h.replaceBy hrule)

/-! ### Links, references and footnotes -/

theorem Target.Closing.runsWithin {title : Option Text} {closing : Text}
    (h : Target.Closing title closing) (hruns : RunsWithin n closing) :
    ∀ t ∈ title, RunsWithin n t := by
  intro t ht
  cases h with
  | bare => cases ht
  | titled => exact Option.some.inj ht ▸ hruns.tail.right.right.left

theorem encloses_imageRule : Encloses n imageRule := by
  intro before c r hit hrule hruns
  obtain ⟨alt, closing, t, hclosing, htakes, htext, -⟩ := imageRule_eq_some hrule
  rw [htakes.take] at hruns
  have htarget := hruns.tail.tail.right.tail.tail
  rw [htext]
  exact enclosed_image htarget.left (hclosing.runsWithin htarget.right) hruns.tail.tail.left

theorem encloses_linkRule : Encloses n linkRule := by
  intro before c r hit hrule hruns
  obtain ⟨label, closing, t, hclosing, htakes, htext, -⟩ := linkRule_eq_some hrule
  rw [htakes.take] at hruns
  have htarget := hruns.tail.right.tail.tail
  rw [htext]
  exact enclosed_anchor htarget.left (hclosing.runsWithin htarget.right) hruns.tail.left

theorem runsWithin_imagesAndLinks {t : Text} (h : RunsWithin n t) :
    RunsWithin n (imagesAndLinks t) :=
  (h.replaceBy encloses_imageRule).replaceBy encloses_linkRule

theorem enclosed_bracketed {t : Text} (h : RunsWithin n ('[' :: (t ++ [']']))) :
    Enclosed n ('[' :: (t ++ [']'])) :=
  ⟨h, rfl, by rw [← List.cons_append, List.getLast?_append]; rfl⟩

/-- A character stays, or it is no digit and its written form has none at either end. -/
theorem escapeChar_eq_or_enclosed (hn : 6 ≤ n) (c : Char) :
    Html.escapeChar c = [c] ∨ isDigit c = false ∧ Enclosed n (Html.escapeChar c) := by
  have hshort : ∀ t : Text, t.length ≤ 6 → t.head?.any (!isDigit ·) = true →
      t.getLast?.any (!isDigit ·) = true → Enclosed n t :=
    fun t ht hfirst hlast => ⟨runsWithin_of_length_le (ht.trans hn), hfirst, hlast⟩
  unfold Html.escapeChar
  split
  · exact .inr ⟨rfl, hshort _ (by decide) rfl rfl⟩
  · exact .inr ⟨rfl, hshort _ (by decide) rfl rfl⟩
  · exact .inr ⟨rfl, hshort _ (by decide) rfl rfl⟩
  · exact .inr ⟨rfl, hshort _ (by decide) rfl rfl⟩
  · exact .inr ⟨rfl, hshort _ (by decide) rfl rfl⟩
  · exact .inl rfl

theorem runsWithin_escape (hn : 6 ≤ n) {t : Text} (h : RunsWithin n t) :
    RunsWithin n (Html.escape t) := by
  -- The text in front holds the characters that stay.
  have hgeneral : ∀ x, RunsWithin n (x ++ t) → RunsWithin n (x ++ Html.escape t) := by
    clear h
    induction t with
    | nil => exact fun _ h => h
    | cons c r ih =>
      intro x h
      rw [Html.escape_cons]
      rcases escapeChar_eq_or_enclosed hn c with hc | ⟨hc, hwritten⟩
      · rw [hc, ← List.append_assoc]
        exact ih _ (by simpa using h)
      · obtain ⟨hx, hr⟩ := (runsWithin_append_cons_iff hc).mp h
        exact hx.join hwritten (ih [] hr)
  exact hgeneral [] h

theorem enclosed_resolve (hn : 6 ≤ n) {s : References} (hs : s.RunsWithin n) (sanitize : Bool)
    (id : Text) {label written : Text} (hlabel : RunsWithin n label)
    (hwritten : Enclosed n written) : Enclosed n (resolve s sanitize id label written) := by
  unfold resolve
  split
  · next t ht =>
    obtain ⟨hurl, htitle⟩ := hs.link ht
    unfold referenceAnchor
    split
    · refine enclosed_anchor (runsWithin_escape hn hurl) ?_ hlabel
      intro title hmem
      obtain ⟨plain, hplain, rfl⟩ := Option.map_eq_some_iff.mp hmem
      exact runsWithin_escape hn (htitle plain hplain)
    · exact enclosed_anchor hurl htitle hlabel
  · exact hwritten

theorem encloses_fullReferenceRule (hn : 6 ≤ n) {s : References} (hs : s.RunsWithin n)
    (sanitize : Bool) : Encloses n (fullReferenceRule s sanitize) := by
  intro before c r hit hrule hruns
  obtain ⟨label, id, rest, htakes, htext, -⟩ := fullReferenceRule_eq_some hrule
  rw [htakes.take] at hruns
  rw [htext]
  refine enclosed_resolve hn hs sanitize _ hruns.tail.left ?_
  have hsplit : '[' :: (label ++ ']' :: '[' :: (id ++ [']'])) =
      '[' :: ((label ++ ']' :: '[' :: id) ++ [']']) := by simp
  rw [hsplit] at hruns ⊢
  exact enclosed_bracketed hruns

theorem encloses_shortcutRule (hn : 6 ≤ n) {s : References} (hs : s.RunsWithin n)
    (sanitize : Bool) : Encloses n (shortcutRule s sanitize) := by
  intro before c r hit hrule hruns
  obtain ⟨label, rest, htakes, htext, -⟩ := shortcutRule_eq_some hrule
  rw [htakes.take] at hruns
  rw [htext]
  exact enclosed_resolve hn hs sanitize _ hruns.tail.left (enclosed_bracketed hruns)

theorem runsWithin_references (hn : 6 ≤ n) {s : References} (hs : s.RunsWithin n) (sanitize : Bool)
    {t : Text} (h : RunsWithin n t) : RunsWithin n (references s sanitize t) :=
  (h.replaceBy (encloses_fullReferenceRule hn hs sanitize)).replaceBy
    (encloses_shortcutRule hn hs sanitize)

theorem encloses_footnoteRule {s : References} (hs : s.RunsWithin n) :
    Encloses n (footnoteRule s) := by
  intro before c r hit hrule hruns
  obtain ⟨id, rest, htakes, -, htext⟩ := footnoteRule_eq_some hrule
  rw [htakes.take] at hruns
  rcases htext with htext | ⟨f, hf, htext⟩
  · rw [htext]
    rw [← List.cons_append] at hruns ⊢
    exact enclosed_bracketed hruns
  · rw [htext]
    exact enclosed_footnoteAnchor hruns.tail.tail.left (hs.footnote hf)

/-! ### Addresses in angle brackets -/

theorem encloses_urlRule : Encloses n urlRule := by
  intro before c r hit hrule hruns
  obtain ⟨o, scheme, body, b, rest, -, -, -, htakes, htext, -⟩ := urlRule_eq_some hrule
  rw [htakes.take] at hruns
  have hurl : RunsWithin n (scheme ++ body) := by
    have hright := hruns.right
    rw [← List.append_assoc] at hright
    exact hright.left
  rw [htext]
  exact enclosed_anchor hurl (by simp) hurl

theorem encloses_mailRule : Encloses n mailRule := by
  intro before c r hit hrule hruns
  obtain ⟨o, user, domain, b, rest, -, -, htakes, htext, -⟩ := mailRule_eq_some hrule
  rw [htakes.take] at hruns
  have haddress : RunsWithin n (user ++ '@' :: domain) := by
    have hright := hruns.right
    rw [← List.cons_append, ← List.append_assoc] at hright
    exact hright.left
  have hscheme : Enclosed n "mailto:".toList :=
    enclosed_linkTexts (by simp [-String.reduceToList, linkTexts])
  rw [htext]
  exact enclosed_anchor (hscheme.append haddress) (by simp) haddress

/-! ### Colours and line breaks -/

theorem encloses_colorRule : Encloses n colorRule := by
  intro before c r hit hrule hruns
  obtain ⟨digits, rest, -, htakes, htext, -⟩ := colorRule_eq_some hrule
  rw [htakes.take] at hruns
  rw [htext]
  exact enclosed_colorPreview hruns

theorem runsWithin_colorPreviews {t : Text} (h : RunsWithin n t) :
    RunsWithin n (colorPreviews t) := by
  rw [colorPreviews_eq_written]
  refine runsWithin_written (fun p hp html hlabel hruns => ?_) (by rwa [source_colorPieces])
  obtain ⟨part, -, hp⟩ := List.mem_flatMap.mp hp
  split at hp
  · obtain rfl := List.mem_singleton.mp hp
    cases hlabel
  · split at hp
    · obtain rfl := List.mem_singleton.mp hp
      cases hlabel
    · exact encloses_colorRule.pieces p hp html hlabel hruns

theorem encloses_hardBreakRule : Encloses n hardBreakRule := by
  intro before c r hit hrule _
  obtain ⟨spaces, rest, -, htext, -⟩ := hardBreakRule_eq_some hrule
  rw [htext]
  exact enclosed_lineTexts (by simp [-String.reduceToList, lineTexts])

theorem runsWithin_markUp (hn : 6 ≤ n) {s : References} (hs : s.RunsWithin n) (sanitize : Bool)
    {t : Text} (h : RunsWithin n t) : RunsWithin n (markUp s sanitize t) := by
  have hspans : RunsWithin n (decorations (emphasis t)) :=
    runsWithin_applyRules encloses_decorationRules (runsWithin_applyRules encloses_emphasisRules h)
  have hreferences := runsWithin_references hn hs sanitize (runsWithin_imagesAndLinks hspans)
  have haddresses : RunsWithin n (autolinks (references s sanitize (imagesAndLinks
      (decorations (emphasis t))))) :=
    (hreferences.replaceBy encloses_urlRule).replaceBy encloses_mailRule
  have hfootnotes := haddresses.replaceBy (encloses_footnoteRule hs)
  exact (runsWithin_colorPreviews hfootnotes).replaceBy encloses_hardBreakRule

/-! ### Escapes and code spans -/

theorem encloses_escapeRule : Encloses n escapeRule := by
  intro before c r hit hrule _
  obtain ⟨k, s, rest, hs, -, htext⟩ := escapeRule_eq_some hrule
  obtain ⟨hk, -⟩ := List.getElem?_eq_some_iff.mp hs
  have hprivate : ∀ k < escapable.length, 0xe000 ≤ (standIn k).toNat ∧ (standIn k).toNat < 0xe200 := by
    decide
  obtain ⟨hlow, hhigh⟩ := hprivate k hk
  rw [htext]
  exact enclosed_of_no_digit (by simp) (by simpa using isDigit_of_private hlow hhigh)

theorem isDigit_codeOpen : isDigit codeOpen = false :=
  isDigit_of_private (by decide) (by decide)

theorem isDigit_codeClose : isDigit codeClose = false :=
  isDigit_of_private (by decide) (by decide)

theorem runsWithin_ofNat (hn : 0 < n) {k : Nat} (hk : k < 10 ^ n) : RunsWithin n (ofNat k) :=
  runsWithin_of_length_le ((Nat.length_toDigits_le_iff (by decide) hn).mpr hk)

theorem enclosed_codeMark (hn : 0 < n) {k : Nat} (hk : k < 10 ^ n) : Enclosed n (codeMark k) := by
  have hopen : Enclosed n [codeOpen] :=
    enclosed_of_no_digit (by simp) (by simpa using isDigit_codeOpen)
  have hclose : Enclosed n [codeClose] :=
    enclosed_of_no_digit (by simp) (by simpa using isDigit_codeClose)
  exact hopen.around (runsWithin_ofNat hn hk) hclose

/-- The marks of code spans have the numbers of the spans, so they are short if the spans are few. -/
theorem runsWithin_stashSpans (hn : 0 < n) {ps : List (Segment (Option Text))} (number : Nat)
    (hnumber : number + ps.length ≤ 10 ^ n) (x : Text) (h : RunsWithin n (x ++ source ps)) :
    RunsWithin n (x ++ (stashSpans number ps).1) := by
  induction ps generalizing number x with
  | nil => exact h
  | cons p ps ih =>
    obtain ⟨label, t⟩ := p
    rw [List.length_cons] at hnumber
    rw [source_cons] at h
    cases label with
    | none =>
      rw [← List.append_assoc] at h
      have hrest := ih number (by omega) (x ++ t) h
      rwa [List.append_assoc] at hrest
    | some body =>
      have hmark : Enclosed n (codeMark number) := enclosed_codeMark hn (by omega)
      have hrest := ih (number + 1) (by omega) [] h.right.right
      exact h.left.join hmark hrest

theorem length_le_flatMap_text {α : Type} {ps : List (Segment α)} (h : ∀ p ∈ ps, p.text ≠ []) :
    ps.length ≤ (ps.flatMap Segment.text).length := by
  induction ps with
  | nil => exact Nat.le_refl 0
  | cons p ps ih =>
    obtain ⟨hp, hps⟩ := List.forall_mem_cons.mp h
    have hpos := List.length_pos_iff.mpr hp
    have hrest := ih hps
    simp only [List.length_cons, List.flatMap_cons, List.length_append]
    omega

theorem runsWithin_protectCode (hn : 0 < n) {t : Text} (hlength : t.length ≤ 10 ^ n)
    (h : RunsWithin n t) : RunsWithin n (protectCode [] t).1 := by
  have hsource : source (segment codeStep () t) = t := flatMap_text_segment _ _ _
  have hcount : (segment codeStep () t).length ≤ t.length := by
    have hle : (segment codeStep () t).length ≤ ((segment codeStep () t).flatMap Segment.text).length :=
      length_le_flatMap_text fun p hp => text_ne_nil_of_mem_segment codeStep hp
    rwa [flatMap_text_segment] at hle
  exact runsWithin_stashSpans hn 0 (by omega) [] (by rwa [hsource])

theorem length_escape_le (t : Text) : (Html.escape t).length ≤ 6 * t.length := by
  have hchar : ∀ c, (Html.escapeChar c).length ≤ 6 := by
    intro c
    unfold Html.escapeChar
    split <;> simp
  induction t with
  | nil => exact Nat.le_refl 0
  | cons c r ih =>
    have := hchar c
    simp only [Html.escape_cons, List.length_append, List.length_cons]
    omega

theorem length_protectEscapes_le (t : Text) : (protectEscapes t).length ≤ t.length := by
  have hgeneral : ∀ ps : List (Segment (Option Text)),
      (∀ p ∈ ps, (p.label.getD p.text).length ≤ p.text.length) →
        (written ps).length ≤ (source ps).length := by
    intro ps
    induction ps with
    | nil => exact fun _ => Nat.le_refl 0
    | cons p ps ih =>
      intro h
      obtain ⟨hp, hps⟩ := List.forall_mem_cons.mp h
      have hrest := ih hps
      simp only [written_cons, source_cons, List.length_append]
      omega
  have hle := hgeneral (pieces escapeRule t) fun p hp => by
    cases hlabel : p.label with
    | none => exact Nat.le_refl _
    | some html =>
      obtain ⟨before, c, r, hit, rest, hrule, -, rfl⟩ := exists_hit_of_mem_pieces hp hlabel
      obtain ⟨k, s, rest, -, -, htext⟩ := escapeRule_eq_some hrule
      rw [Option.getD_some, htext]
      exact List.length_pos_iff.mpr (text_ne_nil_of_mem_segment _ hp)
  rwa [source_pieces] at hle

/-- A number between the marks of a code span is a run of digits of the text. -/
theorem length_le_of_mem_marks {t digits : Text} {p : Segment (Option Text)}
    (hp : p ∈ segment codeMarkStep () t) (hlabel : p.label = some digits) (h : RunsWithin n t) :
    digits.length ≤ n := by
  induction hk : t.length using Nat.strongRecOn generalizing t with
  | ind k ih =>
    cases t with
    | nil => simp at hp
    | cons c r =>
      rw [segment_cons, List.mem_cons] at hp
      rcases hp with rfl | hp
      · cases hnumber : codeNumber? c r with
        | none => simp [codeMarkStep, hnumber] at hlabel
        | some found =>
          simp only [codeMarkStep, hnumber, Option.some.injEq] at hlabel
          obtain ⟨rest, hsplit, -, hdigits⟩ := codeNumber?_eq_some hnumber
          rw [hsplit] at h
          have hrun := h.tail.left.takeWhile
          rwa [List.takeWhile_eq_self_iff.mpr hdigits, hlabel] at hrun
      · refine ih _ ?_ hp (h.tail.of_isInfix (List.drop_suffix _ r).isInfix) rfl
        simp only [List.length_cons, List.length_drop] at hk ⊢
        omega

theorem isClean_restoreCode (stash : Stash) {t : Text} (h : RunsWithin Json.maxDigits t) :
    (restoreCode stash t).IsClean := by
  unfold restoreCode
  split
  · exact Report.isClean_pure t
  · refine (Report.isClean_mapM fun p hp => ?_).bind fun _ => Report.isClean_pure _
    unfold unstash
    split
    · exact Report.isClean_pure _
    · next digits hlabel =>
      have hshort := length_le_of_mem_marks hp hlabel h
      rw [if_neg (by omega)]
      exact (Report.isClean_pure _).bind fun _ => Report.isClean_pure _

/-- Rendering an inline text is no fault if its runs of digits are short and it does not have more
characters than code spans can be numbered. -/
theorem isClean_render {s : References} (hs : s.RunsWithin Json.maxDigits) (sanitize : Bool)
    {t : Text} (hlength : 6 * t.length ≤ 10 ^ Json.maxDigits) (h : RunsWithin Json.maxDigits t) :
    (render s sanitize t).IsClean := by
  have hn : 6 ≤ Json.maxDigits := by decide
  have hsource : RunsWithin Json.maxDigits (if sanitize then Html.escape t else t) := by
    split
    · exact runsWithin_escape hn h
    · exact h
  have hsize : (if sanitize then Html.escape t else t).length ≤ 6 * t.length := by
    split
    · exact length_escape_le t
    · omega
  have hprotected := length_protectEscapes_le (if sanitize then Html.escape t else t)
  have hescaped : RunsWithin Json.maxDigits (protectEscapes (if sanitize then Html.escape t else t)) :=
    hsource.replaceBy encloses_escapeRule
  have hshielded := runsWithin_protectCode (by decide) (by omega) hescaped
  exact (isClean_restoreCode _ (runsWithin_markUp hn hs sanitize hshielded)).bind
    fun _ => Report.isClean_pure _

end Inline

end Markdown
