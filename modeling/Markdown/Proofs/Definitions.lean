import Markdown.Proofs.InlineDigits
import Markdown.Proofs.InlineTexts
import Markdown.References

/-!
# Definitions and their texts

The texts of a definition are parts of its line, and what is left of a document is some of its lines.
So neither has longer runs of digits than the document, and the numbers of footnotes are not greater
than the number of lines.
-/

namespace Markdown.References

open Text

/-! ### Definition lines -/

/-- The texts of a definition that are shown. -/
def DefinitionLine.texts : DefinitionLine → List Text
  | .link _ url title => url :: title.toList
  | .footnote _ content => [content]

theorem bracketed?_suffix {t id rest : Text} (h : bracketed? t = some (id, rest)) : rest <:+ t := by
  unfold bracketed? at h
  split at h
  · next id' rest' hcut =>
    split at h
    · cases h
    · obtain ⟨rfl, rfl⟩ := Prod.mk.inj (Option.some.inj h)
      obtain ⟨rfl, -⟩ := cutAt?_eq_some hcut
      exact ⟨id' ++ [']', ':'], by simp⟩
  · cases h

theorem isInfix_address? {t url rest : Text} (h : address? t = some (url, rest)) :
    url <:+: t ∧ rest <:+: t := by
  unfold address? at h
  extract_lets bare url' at h
  have hbare : bare <:+: t := by
    unfold bare
    split
    · split
      · exact List.infix_refl _
      · exact (List.suffix_cons _ _).isInfix
    · exact List.infix_refl _
  have hurl : url' <:+: t := (List.takeWhile_prefix isUrlChar).isInfix.trans hbare
  have hdrop : bare.drop url'.length <:+: t := (List.drop_suffix _ bare).isInfix.trans hbare
  split at h
  · cases h
  · split at h
    · next rest' hrest =>
      obtain ⟨rfl, rfl⟩ := Prod.mk.inj (Option.some.inj h)
      rw [hrest] at hdrop
      exact ⟨hurl, (List.suffix_cons _ _).isInfix.trans hdrop⟩
    · next rest' _ =>
      obtain ⟨rfl, rfl⟩ := Prod.mk.inj (Option.some.inj h)
      exact ⟨hurl, hdrop⟩

theorem isInfix_titleToEnd? {t title : Text} (h : titleToEnd? t = some title) : title <:+: t := by
  unfold titleToEnd? at h
  split at h
  · next c r =>
    split at h
    · split at h
      · next q body hbody =>
        split at h
        · split at h
          · next title' rest hcut =>
            split at h
            · obtain rfl := Option.some.inj h
              obtain ⟨rfl, -⟩ := cutAt?_eq_some hcut
              have hr := isInfix_trimStart r
              rw [hbody] at hr
              have htitle : title' <:+: q :: (title' ++ q :: rest) := ⟨[q], q :: rest, by simp⟩
              exact (htitle.trans hr).trans (List.suffix_cons c r).isInfix
            · cases h
          · cases h
        · cases h
      · cases h
    · cases h
  · cases h

theorem isInfix_footnoteLine? {line : Text} {d : DefinitionLine} (h : footnoteLine? line = some d) :
    ∀ t ∈ d.texts, t <:+: line := by
  unfold footnoteLine? at h
  split at h
  · next r hline =>
    obtain ⟨⟨id, rest⟩, hbracketed, rfl⟩ := Option.map_eq_some_iff.mp h
    intro t ht
    obtain rfl := List.mem_singleton.mp ht
    have hr : r <:+: Text.trimStart line := by
      rw [hline]
      exact (List.suffix_append ['[', '^'] r).isInfix
    exact (((isInfix_trim rest).trans (bracketed?_suffix hbracketed).isInfix).trans hr).trans
      (isInfix_trimStart line)
  · cases h

theorem isInfix_linkLine? {line : Text} {d : DefinitionLine} (h : linkLine? line = some d) :
    ∀ t ∈ d.texts, t <:+: line := by
  unfold linkLine? at h
  split at h
  · next c r hline =>
    split at h
    · cases h
    · split at h
      · cases h
      · next id rest hbracketed =>
        have hrest : Text.trimStart rest <:+: line := by
          have hcr : c :: r <:+: Text.trimStart line := by
            rw [hline]
            exact (List.suffix_cons _ _).isInfix
          exact (((isInfix_trimStart rest).trans (bracketed?_suffix hbracketed).isInfix).trans hcr).trans
            (isInfix_trimStart line)
        split at h
        · cases h
        · next url behind haddress =>
          obtain ⟨hurl, hbehind⟩ := isInfix_address? haddress
          split at h
          · next title htitle =>
            obtain rfl := Option.some.inj h
            have htitle := (isInfix_titleToEnd? htitle).trans hbehind
            simpa [DefinitionLine.texts] using ⟨hurl.trans hrest, htitle.trans hrest⟩
          · split at h
            · obtain rfl := Option.some.inj h
              simpa [DefinitionLine.texts] using hurl.trans hrest
            · cases h
  · cases h

/-- The texts of a definition are parts of its line. -/
theorem isInfix_definitionLine? {line : Text} {d : DefinitionLine}
    (h : definitionLine? line = some d) : ∀ t ∈ d.texts, t <:+: line := by
  unfold definitionLine? at h
  split at h
  · next d' hd =>
    obtain rfl := Option.some.inj h
    exact isInfix_footnoteLine? hd
  · exact isInfix_linkLine? h

/-! ### The definitions of a document -/

/-- The texts of the definitions fit, and the footnotes have earlier numbers than the next. -/
structure Fit (n size : Nat) (s : References) : Prop where
  /-- The targets of links. -/
  links : ∀ e ∈ s.links, Text.RunsWithin n e.2.url ∧ ∀ t ∈ e.2.title, Text.RunsWithin n t
  /-- The contents of footnotes. -/
  contents : ∀ e ∈ s.notes, e.2.content.Fits n size
  /-- The numbers of footnotes. -/
  numbers : ∀ e ∈ s.notes, e.2.index < s.next

variable {n size : Nat} {s : References}

theorem fit_empty : Fit n size empty :=
  ⟨by simp [empty], by simp [empty], by simp [empty]⟩

theorem eq_or_mem_of_mem_put {β : Type} {entries : List (Text × β)} {key : Text} {v : β}
    {e : Text × β} (h : e ∈ put entries key v) : e.2 = v ∨ e ∈ entries := by
  induction entries with
  | nil =>
    obtain rfl := List.mem_singleton.mp h
    exact .inl rfl
  | cons d r ih =>
    rw [put] at h
    split at h
    · rcases List.mem_cons.mp h with rfl | h
      · exact .inl rfl
      · exact .inr (List.mem_cons_of_mem d h)
    · rcases List.mem_cons.mp h with rfl | h
      · exact .inr List.mem_cons_self
      · exact (ih h).imp id (List.mem_cons_of_mem d)

theorem Fit.define (h : Fit n size s) {d : DefinitionLine} (hd : ∀ t ∈ d.texts, t.Fits n size) :
    Fit n size (s.define d) := by
  cases d with
  | link id url title =>
    obtain ⟨hurl, htitle⟩ := List.forall_mem_cons.mp hd
    refine ⟨fun e he => ?_, h.contents, h.numbers⟩
    rcases eq_or_mem_of_mem_put he with heq | he
    · rw [heq]
      exact ⟨hurl.runs, fun t ht => (htitle t (Option.mem_toList.mpr ht)).runs⟩
    · exact h.links e he
  | footnote id content =>
    have hcontent : content.Fits n size := hd content List.mem_cons_self
    refine ⟨h.links, fun e he => ?_, fun e he => ?_⟩
    · rcases eq_or_mem_of_mem_put he with heq | he
      · rwa [heq]
      · exact h.contents e he
    · rcases eq_or_mem_of_mem_put he with heq | he
      · rw [heq]
        exact Nat.lt_succ_self s.next
      · exact Nat.lt_succ_of_lt (h.numbers e he)

theorem next_define_le (s : References) (d : DefinitionLine) : (s.define d).next ≤ s.next + 1 := by
  cases d with
  | link => exact Nat.le_succ s.next
  | footnote => exact Nat.le_refl _

/-- Taking the definitions out of lines. -/
theorem Fit.extractLines {lines : List Text} (h : Fit n size s) (fenced : Bool)
    (hlines : ∀ l ∈ lines, l.Fits n size) :
    Fit n size (s.extractLines fenced lines).2 ∧
      (s.extractLines fenced lines).2.next ≤ s.next + lines.length ∧
      (s.extractLines fenced lines).1.Sublist lines := by
  induction lines generalizing s fenced with
  | nil => exact ⟨h, Nat.le_refl _, List.Sublist.refl _⟩
  | cons line r ih =>
    obtain ⟨hline, hr⟩ := List.forall_mem_cons.mp hlines
    rw [References.extractLines]
    split
    · obtain ⟨hfit, hnext, hsub⟩ := ih h (!fenced) hr
      exact ⟨hfit, Nat.le_succ_of_le hnext, hsub.cons_cons line⟩
    · split
      · obtain ⟨hfit, hnext, hsub⟩ := ih h fenced hr
        exact ⟨hfit, Nat.le_succ_of_le hnext, hsub.cons_cons line⟩
      · split
        · next d hd =>
          have htexts : ∀ t ∈ d.texts, t.Fits n size :=
            fun t ht => hline.of_isInfix (isInfix_definitionLine? hd t ht)
          obtain ⟨hfit, hnext, hsub⟩ := ih (h.define htexts) fenced hr
          have hstep := next_define_le s d
          refine ⟨hfit, ?_, hsub.cons line⟩
          rw [List.length_cons]
          omega
        · obtain ⟨hfit, hnext, hsub⟩ := ih h fenced hr
          exact ⟨hfit, Nat.le_succ_of_le hnext, hsub.cons_cons line⟩

/-- What is left of a text, and its definitions. -/
theorem fit_extract {t : Text} (h : t.Fits n size) :
    (empty.extract t).1.Fits n size ∧ Fit n size (empty.extract t).2 ∧
      (empty.extract t).2.next ≤ size + 1 := by
  have hlines : ∀ l ∈ Text.lines t, l.Fits n size := fun l hl => (LinesFit.of_text h).fits hl
  obtain ⟨hfit, hnext, hsub⟩ := fit_empty.extractLines false hlines
  have hcount := length_le_size (Text.lines t)
  have hlength := h.length
  have hfirst : empty.next = 1 := rfl
  rw [size_lines] at hcount
  refine ⟨⟨runsWithin_unlines_iff.mpr fun l hl => (hlines l (hsub.subset hl)).runs, ?_⟩, hfit, ?_⟩
  · exact Nat.lt_of_le_of_lt (length_unlines_le hsub) h.length
  · show ((empty.extractLines false (Text.lines t)).2).next ≤ size + 1
    omega

theorem Fit.runsWithin (h : Fit n size s) (hn : 0 < n) (hnext : s.next ≤ 10 ^ n) :
    s.RunsWithin n :=
  ⟨h.links, fun e he => Inline.runsWithin_ofNat hn (Nat.lt_of_lt_of_le (h.numbers e he) hnext)⟩

end Markdown.References

namespace Markdown.Text

variable {n size : Nat} {t : Text}

theorem takeWhile_normalizeNewlines (t : Text) :
    (normalizeNewlines t).takeWhile isDigit = t.takeWhile isDigit := by
  have hreturn : isDigit '\r' = false := by decide
  have hfeed : isDigit '\n' = false := by decide
  fun_induction normalizeNewlines t with
  | case1 => rfl
  | case2 r _ => simp [hreturn, hfeed]
  | case3 r _ _ => simp [hreturn, hfeed]
  | case4 c r _ _ ih => simp [List.takeWhile_cons, ih]

theorem runsWithin_normalizeNewlines (h : RunsWithin n t) : RunsWithin n (normalizeNewlines t) := by
  have hfeed : isDigit '\n' = false := by decide
  have hcons : ∀ r : Text, RunsWithin n r → RunsWithin n ('\n' :: r) :=
    fun r hr => (runsWithin_append_cons_iff (s := []) hfeed).mpr ⟨runsWithin_nil, hr⟩
  fun_induction normalizeNewlines t with
  | case1 => exact h
  | case2 r ih => exact hcons _ (ih h.tail.tail)
  | case3 r _ ih => exact hcons _ (ih h.tail)
  | case4 c r _ _ ih =>
    obtain ⟨hrun, hr⟩ := runsWithin_cons_iff.mp h
    refine runsWithin_cons_iff.mpr ⟨?_, ih hr⟩
    rwa [List.takeWhile_cons, takeWhile_normalizeNewlines, ← List.takeWhile_cons]

theorem length_normalizeNewlines_le (t : Text) : (normalizeNewlines t).length ≤ t.length := by
  fun_induction normalizeNewlines t with
  | case1 => exact Nat.le_refl 0
  | case2 r ih =>
    simp only [List.length_cons]
    omega
  | case3 r _ ih => exact Nat.succ_le_succ ih
  | case4 c r _ _ ih => exact Nat.succ_le_succ ih

theorem Fits.normalizeNewlines (h : t.Fits n size) : (normalizeNewlines t).Fits n size :=
  ⟨runsWithin_normalizeNewlines h.runs,
    Nat.lt_of_le_of_lt (length_normalizeNewlines_le t) h.length⟩

end Markdown.Text
