import Markdown.Highlight.Registry
import Markdown.Proofs.LowerCase
import Markdown.Proofs.NormalForm

/-!
# Registered highlighters

A program registers highlighters, asks whether languages have one and highlights code, in any order
and under any names. Every name is put in its normal form first, and a normal form is its own
(`normalizeLanguage_normalizeLanguage`), so the table speaks of normal names only. One call changes
what is found for at most one normal name (`find?_apply_of_not_registers`); from this, a highlighter
is found until another one takes its place (`find?_after_of_latest`), and a name under which none has
been registered keeps its built-in one (`find?_after_of_not_registers`).
-/

namespace Markdown.Highlight

/-! ### Normal names -/

/-- Names in normal form. -/
structure IsNormalName (name : Text) : Prop where
  /-- There is a name. -/
  ne_nil : name ≠ []
  /-- There are no blanks around it. -/
  trimmed : Text.trim name = name
  /-- It is in lower case. -/
  lowered : Text.lower name = name
  /-- It is no alias. -/
  resolved : ∀ a ∈ aliases, a.1 ≠ name

/-- Whether a text of ASCII is a name in normal form. -/
def isAsciiName (name : Text) : Bool :=
  !name.isEmpty && Text.trim name == name &&
    (name.all fun c => c.toNat < 0x80 && Text.lowerAscii c == c) && aliases.all fun a => a.1 != name

theorem isNormalName_of_isAsciiName {name : Text} (h : isAsciiName name = true) : IsNormalName name := by
  simp only [isAsciiName, Bool.and_eq_true, Bool.not_eq_true', List.isEmpty_eq_false_iff, beq_iff_eq,
    List.all_eq_true, decide_eq_true_eq, bne_iff_ne] at h
  obtain ⟨⟨⟨hne, htrim⟩, hlower⟩, hresolved⟩ := h
  refine ⟨hne, htrim, ?_, hresolved⟩
  rw [Text.lower_of_isAscii fun c hc => (hlower c hc).1,
    List.map_congr_left fun c hc => (hlower c hc).2, List.map_id']

theorem isNormalName_plainText : IsNormalName plainText :=
  isNormalName_of_isAsciiName (by decide)

/-- What aliases stand for is in normal form. -/
theorem isNormalName_of_mem_aliases {a : Text × Text} (ha : a ∈ aliases) : IsNormalName a.2 := by
  have hall : (aliases.all fun a => isAsciiName a.2) = true := by decide
  exact isNormalName_of_isAsciiName (List.all_eq_true.mp hall a ha)

/-- What is left of a name without blanks around it and in lower case. -/
theorem trim_lower_trim (l : Text) :
    Text.trim (Text.lower (Text.trim l)) = Text.lower (Text.trim l) := by
  obtain ⟨hopens, hcloses⟩ := FromHtml.visible_ends_of_trim (Text.trim_trim l)
  obtain ⟨hopens, hcloses⟩ := Text.visible_ends_lower hopens hcloses
  exact FromHtml.trim_eq_self hopens hcloses

theorem isNormalName_normalizeLanguage (language : Option Text) :
    IsNormalName (normalizeLanguage language) := by
  cases language with
  | none => exact isNormalName_plainText
  | some l =>
    simp only [normalizeLanguage]
    cases halias : aliases.find? fun a => a.1 == Text.lower (Text.trim l) with
    | some a =>
      have hnormal := isNormalName_of_mem_aliases (List.mem_of_find?_eq_some halias)
      simp only [Option.map_some, Option.getD_some]
      split
      · exact isNormalName_plainText
      · exact hnormal
    | none =>
      simp only [Option.map_none, Option.getD_none]
      split
      · exact isNormalName_plainText
      · next hne =>
        simp only [Bool.or_eq_true, List.isEmpty_iff, not_or] at hne
        exact ⟨hne.2, trim_lower_trim l, Text.lower_lower _, fun a ha => by
          simpa using List.find?_eq_none.mp halias a ha⟩

theorem IsNormalName.normalizeLanguage_eq {name : Text} (h : IsNormalName name) :
    normalizeLanguage (some name) = name := by
  have halias : (aliases.find? fun a => a.1 == name) = none :=
    List.find?_eq_none.mpr fun a ha => by simpa using h.resolved a ha
  simp [normalizeLanguage, h.trimmed, h.lowered, halias, h.ne_nil]

theorem normalizeLanguage_normalizeLanguage (language : Option Text) :
    normalizeLanguage (some (normalizeLanguage language)) = normalizeLanguage language :=
  (isNormalName_normalizeLanguage language).normalizeLanguage_eq

/-! ### Calls -/

/-- The calls of a program. -/
inductive Call where
  /-- A value is registered: a highlighter, or something that cannot be called. -/
  | register (language : Text) (highlighter : Option Highlighter)
  /-- It is asked whether a language has a highlighter. -/
  | supports (language : Option Text)
  /-- Code is highlighted. -/
  | highlight (language : Option Text) (expanded : Option (Text → Bool)) (swatches : Bool)
    (code : Text)

namespace Call

/-- The table behind a call. -/
def apply (r : Registry) : Call → Registry
  | register language h => (r.register language h).value
  | supports _ => r
  | highlight .. => r

/-- A call registers a highlighter under a normal name. -/
def Registers : Call → Text → Prop
  | register language (some _), name => normalizeLanguage (some language) = name
  | _, _ => False

instance (name : Text) : DecidablePred fun call : Call => call.Registers name
  | register language (some _) => decEq (normalizeLanguage (some language)) name
  | register _ none => .isFalse id
  | supports _ => .isFalse id
  | highlight .. => .isFalse id

/-- Calls that differ in their names only, and in these not beyond the normal form. -/
inductive Alike : Call → Call → Prop
  | register {l m : Text} (h : Option Highlighter)
      (hname : normalizeLanguage (some l) = normalizeLanguage (some m)) :
      Alike (register l h) (register m h)
  | supports {l m : Option Text} (hname : normalizeLanguage l = normalizeLanguage m) :
      Alike (supports l) (supports m)
  | highlight {l m : Option Text} (expanded : Option (Text → Bool)) (swatches : Bool) (code : Text)
      (hname : normalizeLanguage l = normalizeLanguage m) :
      Alike (highlight l expanded swatches code) (highlight m expanded swatches code)

end Call

/-- The table behind calls, the first of which finds the built-in highlighters. -/
def after (calls : List Call) : Registry :=
  calls.foldl Call.apply Registry.builtin

/-- A highlighter has been registered under a normal name, and none behind it. -/
def Latest (calls : List Call) (name : Text) (h : Highlighter) : Prop :=
  ∃ front language back, calls = front ++ .register language (some h) :: back ∧
    normalizeLanguage (some language) = name ∧ ∀ call ∈ back, ¬call.Registers name

/-- The HTML of code by a highlighter. -/
def Highlighter.html (h : Highlighter) (expanded : Option (Text → Bool)) (swatches : Bool)
    (code : Text) : Report Text := do
  let html ← h expanded code
  pure (if swatches then decorateColors html else html)

section Table

variable {r : Registry} {call : Call} {calls : List Call} {language : Option Text} {name : Text}
  {h : Highlighter}

theorem Registry.find?_insert_self {l : Text}
    (hname : normalizeLanguage (some l) = normalizeLanguage language) :
    (r.insert l h).find? language = some h := by
  simp [find?, insert, hname]

theorem Registry.find?_insert_of_ne {l : Text}
    (hname : normalizeLanguage (some l) ≠ normalizeLanguage language) :
    (r.insert l h).find? language = r.find? language := by
  simp [find?, insert, hname]

theorem Registry.supports_iff :
    r.supports language = true ↔ normalizeLanguage language ∈ r.map Prod.fst := by
  simp only [supports, find?, Option.isSome_map, List.find?_isSome, beq_iff_eq, List.mem_map]

/-- Code is highlighted by what is found. -/
theorem Registry.highlight_of_find? {expanded : Option (Text → Bool)} {swatches : Bool} {code : Text}
    (hcode : code ≠ []) (hfind : r.find? language = some h) :
    r.highlight language expanded swatches code = h.html expanded swatches code := by
  simp [highlight, hcode, hfind, Highlighter.html]

/-- A call leaves alone what is found under the names that it does not register. -/
theorem find?_apply_of_not_registers (hcall : ¬call.Registers (normalizeLanguage language)) :
    (call.apply r).find? language = r.find? language := by
  cases call with
  | register l value =>
    cases value with
    | none => rfl
    | some h => exact Registry.find?_insert_of_ne hcall
  | supports => rfl
  | highlight => rfl

theorem find?_foldl_of_not_registers
    (hcalls : ∀ call ∈ calls, ¬call.Registers (normalizeLanguage language)) :
    (calls.foldl Call.apply r).find? language = r.find? language := by
  induction calls generalizing r with
  | nil => rfl
  | cons call calls ih =>
    obtain ⟨hcall, hcalls⟩ := List.forall_mem_cons.mp hcalls
    rw [List.foldl_cons, ih hcalls, find?_apply_of_not_registers hcall]

/-- Without a registration, the built-in highlighter stays. -/
theorem find?_after_of_not_registers
    (hcalls : ∀ call ∈ calls, ¬call.Registers (normalizeLanguage language)) :
    (after calls).find? language = Registry.builtin.find? language :=
  find?_foldl_of_not_registers hcalls

/-- The latest highlighter is found. -/
theorem find?_after_of_latest (hlatest : Latest calls (normalizeLanguage language) h) :
    (after calls).find? language = some h := by
  obtain ⟨front, l, back, rfl, hname, hback⟩ := hlatest
  rw [after, List.foldl_append, List.foldl_cons, find?_foldl_of_not_registers hback]
  exact Registry.find?_insert_self hname

/-- Of the highlighters that have been registered under a name one is the latest. -/
theorem exists_latest (hcalls : ∃ call ∈ calls, call.Registers name) : ∃ h, Latest calls name h := by
  induction calls with
  | nil => simp at hcalls
  | cons call calls ih =>
    by_cases hback : ∃ later ∈ calls, later.Registers name
    · obtain ⟨h, front, l, back, rfl, hlatest⟩ := ih hback
      exact ⟨h, call :: front, l, back, rfl, hlatest⟩
    · have hcall : call.Registers name := by simpa [hback] using hcalls
      match call with
      | .register l (some h) => exact ⟨h, [], l, calls, rfl, hcall, by simpa using hback⟩

/-- The languages with a highlighter are the built-in ones and those under whose name one has been
registered. -/
theorem supports_after_iff :
    (after calls).supports language = true ↔
      normalizeLanguage language ∈ Registry.builtin.map Prod.fst ∨
        ∃ call ∈ calls, call.Registers (normalizeLanguage language) := by
  by_cases hcalls : ∃ call ∈ calls, call.Registers (normalizeLanguage language)
  · obtain ⟨h, hlatest⟩ := exists_latest hcalls
    simp [Registry.supports, find?_after_of_latest hlatest, hcalls]
  · have hfind := find?_after_of_not_registers (by simpa using hcalls)
    rw [Registry.supports, hfind, ← Registry.supports, Registry.supports_iff]
    simp only [hcalls, or_false]

/-- Alike calls on one table leave one table. -/
theorem Call.Alike.apply_eq {other : Call} (halike : call.Alike other) : call.apply r = other.apply r := by
  cases halike with
  | register value hname =>
    cases value with
    | none => rfl
    | some h => simp [apply, Registry.register, Registry.insert, hname]
  | supports => rfl
  | highlight => rfl

/-- Whether a language has a highlighter and what becomes of its code rest on the normal form of its
name: only the log holds the name itself. -/
theorem Registry.lookups_congr {m : Option Text}
    (hname : normalizeLanguage m = normalizeLanguage language) :
    r.supports m = r.supports language ∧ ∀ expanded swatches code,
      (r.highlight m expanded swatches code).answer =
          (r.highlight language expanded swatches code).answer ∧
        (r.highlight m expanded swatches code).questions =
          (r.highlight language expanded swatches code).questions := by
  have hfind : r.find? m = r.find? language := by rw [find?, hname, find?]
  refine ⟨by rw [supports, hfind, supports], fun expanded swatches code => ?_⟩
  by_cases hcode : code = []
  · simp [highlight, hcode]
  cases hfound : r.find? language with
  | some h =>
    rw [highlight_of_find? hcode (hfind.trans hfound), highlight_of_find? hcode hfound]
    exact ⟨rfl, rfl⟩
  | none =>
    simp only [highlight, hfind, hfound, List.isEmpty_iff, if_neg hcode]
    exact ⟨rfl, rfl⟩

theorem after_eq_of_alike {others : List Call} (halike : List.Forall₂ Call.Alike calls others) :
    after calls = after others := by
  unfold after
  generalize Registry.builtin = r
  induction halike generalizing r with
  | nil => rfl
  | cons hcall _ ih => rw [List.foldl_cons, List.foldl_cons, hcall.apply_eq, ih]

end Table

/-- **The latest registration decides.** Let a program have registered highlighters, with or without
success, and looked up languages under any names. A language has a highlighter exactly if its normal
name is that of a built-in one or one has been registered under it. Its code is highlighted by the
latest one, or by the built-in one as long as none has been registered. What cannot be called is
refused and leaves no trace in the rest of the program. Names with one normal form are
interchangeable, in lookups and throughout the program before them, and a normal form is its own. -/
theorem registrations_decide (calls : List Call) (language : Option Text) :
    ((after calls).supports language = true ↔
      normalizeLanguage language ∈ Registry.builtin.map Prod.fst ∨
        ∃ call ∈ calls, call.Registers (normalizeLanguage language)) ∧
    (∀ expanded swatches code, code ≠ [] →
      (∀ h, Latest calls (normalizeLanguage language) h →
        (after calls).highlight language expanded swatches code = h.html expanded swatches code) ∧
      ((∀ call ∈ calls, ¬call.Registers (normalizeLanguage language)) →
        (after calls).highlight language expanded swatches code =
          Registry.builtin.highlight language expanded swatches code) ∧
      ((∃ h, Latest calls (normalizeLanguage language) h) ∨
        ∀ call ∈ calls, ¬call.Registers (normalizeLanguage language))) ∧
    (∀ l, ((after calls).register l none).answer = .error (.notCallable l) ∧
      (∀ more, after (calls ++ .register l none :: more) = after (calls ++ more)) ∧
      ∀ h, ((after calls).register l (some h)).answer =
        .ok (after (calls ++ [.register l (some h)]))) ∧
    (∀ m, normalizeLanguage m = normalizeLanguage language →
      (after calls).supports m = (after calls).supports language ∧ ∀ expanded swatches code,
        ((after calls).highlight m expanded swatches code).answer =
            ((after calls).highlight language expanded swatches code).answer ∧
          ((after calls).highlight m expanded swatches code).questions =
            ((after calls).highlight language expanded swatches code).questions) ∧
    (∀ others, List.Forall₂ Call.Alike calls others → after calls = after others) ∧
    normalizeLanguage (some (normalizeLanguage language)) = normalizeLanguage language := by
  refine ⟨supports_after_iff, fun expanded swatches code hcode => ⟨fun h hlatest => ?_, fun hnone => ?_,
    ?_⟩, fun l => ⟨rfl, fun more => ?_, fun h => ?_⟩, fun m => Registry.lookups_congr,
    fun others => after_eq_of_alike, normalizeLanguage_normalizeLanguage language⟩
  · exact Registry.highlight_of_find? hcode (find?_after_of_latest hlatest)
  · rw [Registry.highlight, find?_after_of_not_registers hnone, Registry.highlight]
  · by_cases hcalls : ∃ call ∈ calls, call.Registers (normalizeLanguage language)
    · exact .inl (exists_latest hcalls)
    · exact .inr (by simpa using hcalls)
  · simp [after, Call.apply, Registry.register]
  · rw [after, after, List.foldl_append]
    rfl

/-- A highlighter that marks all code. -/
def marked : Highlighter := fun _ code =>
  pure ("<b>".toList ++ code ++ "</b>".toList)

/-- A program that registers a highlighter under an alias, fails to replace it, asks for another
language, replaces the first one under a name in capital letters, and fails once more. -/
def replacements : List Call :=
  [.register "py".toList (some (ofSpans Bash.spans)), .register "Python".toList none,
    .supports (some "yml".toList), .register " PYTHON\n".toList (some marked),
    .register "py".toList none]

theorem registrations_decide_replacements :
    (after replacements).supports (some "Py".toList) = true ∧
      (after replacements).highlight (some "Py".toList) none false "x".toList =
        pure "<b>x</b>".toList ∧
      (after replacements).supports (some "rust".toList) = false := by
  have hlatest : Latest replacements (normalizeLanguage (some "Py".toList)) marked :=
    ⟨replacements.take 3, _, _, rfl, by decide, by decide⟩
  obtain ⟨hpython, hcode, -⟩ := registrations_decide replacements (some "Py".toList)
  obtain ⟨hrust, -⟩ := registrations_decide replacements (some "rust".toList)
  refine ⟨hpython.mpr (.inr (by decide)), (hcode none false _ (by decide)).1 marked hlatest, ?_⟩
  rw [Bool.eq_false_iff, ne_eq, hrust]
  decide

end Markdown.Highlight
