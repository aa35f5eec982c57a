import Markdown.Highlight.Json
import Markdown.Proofs.Characters
import Markdown.Proofs.JsonLexemes
import Markdown.Proofs.Lines
import Markdown.Proofs.Search

/-!
# JSON source and its grammar

The grammar of JSON as an inductive predicate on sequences of tokens, with the white space between them
(`Json.Derives`). The scanner of the highlighter knows nothing of it. It takes a string for a key if a
colon comes next, and a number as far as digits go. In a text of the grammar this is right at every token,
since white space and then a comma, a closing bracket or the end of the text stand behind each value
(`Json.Closes`). So the spans are the tokens (`Highlight.Json.spans_source_append`), and a text has no
second sequence of tokens.
-/

namespace Markdown

open Text

namespace Json

/-! ### The grammar -/

/-- What a token is. -/
inductive Role where
  /-- White space. -/
  | space
  /-- One of `{ } [ ] , :`. -/
  | mark
  /-- The name of a member of an object. -/
  | name
  /-- Another string. -/
  | string
  /-- A number. -/
  | number
  /-- `true` or `false`. -/
  | truth
  /-- `null`. -/
  | null
  deriving DecidableEq, Repr

/-- A token of the grammar with its text. -/
abbrev Lexical := Segment Role

/-- The text that some tokens make up. -/
def source (ts : List Lexical) : Text :=
  ts.flatMap Segment.text

/-- White space, character by character. -/
def spaces (ws : Text) : List Lexical :=
  ws.map fun c => ⟨.space, [c]⟩

/-- A mark as a token. -/
def mark (c : Char) : Lexical :=
  ⟨.mark, [c]⟩

/-- What stands between the quotes of a string. -/
inductive IsCharacters : Text → Prop where
  /-- Nothing. -/
  | nil : IsCharacters []
  /-- A character that needs no escape. -/
  | plain {c : Char} {r : Text} (hc : 0x20 ≤ c.toNat ∧ c ≠ '"' ∧ c ≠ '\\') (h : IsCharacters r) :
    IsCharacters (c :: r)
  /-- An escape of one letter. -/
  | short {c : Char} {r : Text} (hc : c ∈ ['"', '\\', '/', 'b', 'f', 'n', 'r', 't'])
    (h : IsCharacters r) : IsCharacters ('\\' :: c :: r)
  /-- A code unit in four hexadecimal digits. -/
  | unit {ds r : Text} (hsize : ds.length = 4) (hds : ∀ d ∈ ds, isHexDigit d = true)
    (h : IsCharacters r) : IsCharacters ('\\' :: 'u' :: (ds ++ r))

/-- A string with its quotes. -/
inductive IsString : Text → Prop where
  /-- Characters between quotes. -/
  | quoted {body : Text} (h : IsCharacters body) : IsString ('"' :: (body ++ ['"']))

/-- Digits, at least one. -/
def AreDigits (ds : Text) : Prop :=
  ds ≠ [] ∧ ∀ d ∈ ds, isAsciiDigit d = true

/-- The whole part of a number: no zero stands in front of other digits. -/
def IsWhole (ds : Text) : Prop :=
  AreDigits ds ∧ (ds.head? = some '0' → ds = ['0'])

/-- The fraction of a number, which may be missing. -/
inductive IsFraction : Text → Prop where
  /-- No fraction. -/
  | none : IsFraction []
  /-- A point and digits. -/
  | some {ds : Text} (h : AreDigits ds) : IsFraction ('.' :: ds)

/-- The exponent of a number, which may be missing. -/
inductive IsExponent : Text → Prop where
  /-- No exponent. -/
  | none : IsExponent []
  /-- A letter, perhaps a sign, and digits. -/
  | some {e : Char} {sign ds : Text} (he : e = 'e' ∨ e = 'E')
    (hsign : sign = [] ∨ sign = ['+'] ∨ sign = ['-']) (h : AreDigits ds) :
    IsExponent (e :: (sign ++ ds))

/-- A number. -/
inductive IsNumber : Text → Prop where
  /-- Perhaps a minus sign, and the three parts. -/
  | parts {sign whole fraction exponent : Text} (hsign : sign = [] ∨ sign = ['-'])
    (hwhole : IsWhole whole) (hfraction : IsFraction fraction) (hexponent : IsExponent exponent) :
    IsNumber (sign ++ (whole ++ (fraction ++ exponent)))

/-- The symbols of the grammar. -/
inductive Symbol where
  /-- A value. -/
  | value
  /-- A value in white space; a JSON text is one. -/
  | element
  /-- Elements, at least one, with commas between them. -/
  | elements
  /-- A name and a value with a colon between them. -/
  | member
  /-- Members, at least one, with commas between them. -/
  | members

/-- The sequences of tokens that a symbol stands for. -/
inductive Derives : Symbol → List Lexical → Prop where
  /-- A truth value. -/
  | truth {t : Text} (h : t = "true".toList ∨ t = "false".toList) : Derives .value [⟨.truth, t⟩]
  /-- The word for nothing. -/
  | null : Derives .value [⟨.null, "null".toList⟩]
  /-- A number. -/
  | number {t : Text} (h : IsNumber t) : Derives .value [⟨.number, t⟩]
  /-- A string. -/
  | string {t : Text} (h : IsString t) : Derives .value [⟨.string, t⟩]
  /-- An array without elements. -/
  | noElements {ws : Text} (h : ∀ c ∈ ws, isBlank c = true) :
    Derives .value (mark '[' :: (spaces ws ++ [mark ']']))
  /-- An array. -/
  | array {ts : List Lexical} (h : Derives .elements ts) :
    Derives .value (mark '[' :: (ts ++ [mark ']']))
  /-- An object without members. -/
  | noMembers {ws : Text} (h : ∀ c ∈ ws, isBlank c = true) :
    Derives .value (mark '{' :: (spaces ws ++ [mark '}']))
  /-- An object. -/
  | object {ts : List Lexical} (h : Derives .members ts) :
    Derives .value (mark '{' :: (ts ++ [mark '}']))
  /-- White space around a value. -/
  | element {before behind : Text} {ts : List Lexical} (hbefore : ∀ c ∈ before, isBlank c = true)
    (h : Derives .value ts) (hbehind : ∀ c ∈ behind, isBlank c = true) :
    Derives .element (spaces before ++ (ts ++ spaces behind))
  /-- The last element. -/
  | lastElement {ts : List Lexical} (h : Derives .element ts) : Derives .elements ts
  /-- An element in front of others. -/
  | nextElement {ts us : List Lexical} (h : Derives .element ts) (hmore : Derives .elements us) :
    Derives .elements (ts ++ mark ',' :: us)
  /-- A name, a colon and a value, each in white space. -/
  | member {before behind t : Text} {ts : List Lexical} (hbefore : ∀ c ∈ before, isBlank c = true)
    (ht : IsString t) (hbehind : ∀ c ∈ behind, isBlank c = true) (h : Derives .element ts) :
    Derives .member (spaces before ++ ⟨.name, t⟩ :: (spaces behind ++ mark ':' :: ts))
  /-- The last member. -/
  | lastMember {ts : List Lexical} (h : Derives .member ts) : Derives .members ts
  /-- A member in front of others. -/
  | nextMember {ts us : List Lexical} (h : Derives .member ts) (hmore : Derives .members us) :
    Derives .members (ts ++ mark ',' :: us)

/-- The tokens of a JSON text. -/
def AreTokens (ts : List Lexical) : Prop :=
  Derives .element ts

/-! ### What stands behind a value -/

/-- What may stand behind a value: white space, and then a comma, a closing bracket or nothing. -/
inductive Closes : Text → Prop where
  /-- The end. -/
  | ended : Closes []
  /-- A mark. -/
  | mark {c : Char} {r : Text} (hc : c = ',' ∨ c = ']' ∨ c = '}') : Closes (c :: r)
  /-- White space. -/
  | space {c : Char} {r : Text} (hc : isBlank c = true) (h : Closes r) : Closes (c :: r)

variable {t rest : Text} {c : Char}

theorem Closes.behind (h : Closes rest) {ws : Text} (hws : ∀ c ∈ ws, isBlank c = true) :
    Closes (ws ++ rest) := by
  induction ws with
  | nil => exact h
  | cons c ws ih =>
    obtain ⟨hc, hws⟩ := List.forall_mem_cons.mp hws
    exact .space hc (ih hws)

theorem eq_of_isBlank (hc : isBlank c = true) : c = ' ' ∨ c = '\t' ∨ c = '\n' ∨ c = '\r' := by
  simpa [isBlank, or_assoc] using hc

theorem eq_of_isMark (hc : isMark c = true) :
    c = '\x7b' ∨ c = '\x7d' ∨ c = '[' ∨ c = ']' ∨ c = ',' ∨ c = ':' := by
  simpa [isMark, or_assoc] using hc

/-- White space is blank. -/
theorem text_isBlank_of_isBlank (hc : isBlank c = true) : Text.isBlank c = true := by
  rcases eq_of_isBlank hc with rfl | rfl | rfl | rfl <;> rfl

theorem allBlank_of_isBlank {ws : Text} (hws : ∀ c ∈ ws, isBlank c = true) : allBlank ws = true :=
  List.all_eq_true.mpr fun c hc => text_isBlank_of_isBlank (hws c hc)

/-- No colon comes next behind a value. -/
theorem Closes.head_trimStart_ne (h : Closes rest) : (trimStart rest).head? ≠ some ':' := by
  induction h with
  | ended => simp [trimStart, trimStartBy]
  | mark hc =>
    rcases hc with rfl | rfl | rfl
    all_goals
      rw [trimStart_cons rfl]
      simp
  | space hc _ ih =>
    rwa [trimStart, trimStartBy, List.dropWhile_cons_of_pos (text_isBlank_of_isBlank hc)]

/-- A character that goes on with no number in front of it. -/
def endsNumber (c : Char) : Bool :=
  !isDigit c && c != '.' && c != 'e' && c != 'E'

/-- A text at which a number ends. -/
def EndsNumber (rest : Text) : Prop :=
  ∀ c, rest.head? = some c → endsNumber c = true

/-- No number goes on behind a value. -/
theorem Closes.endsNumber (h : Closes rest) : EndsNumber rest := by
  intro c hc
  cases h with
  | ended => cases hc
  | mark hmark =>
    obtain rfl := Option.some.inj hc
    rcases hmark with rfl | rfl | rfl <;> rfl
  | space hblank _ =>
    obtain rfl := Option.some.inj hc
    rcases eq_of_isBlank hblank with rfl | rfl | rfl | rfl <;> rfl

theorem isBody_append {s r : Text} (hs : ∀ c ∈ s, c ≠ '"' ∧ c ≠ '\\') (h : IsBody r) :
    IsBody (s ++ r) := by
  induction s with
  | nil => exact h
  | cons c s ih =>
    obtain ⟨hc, hs⟩ := List.forall_mem_cons.mp hs
    exact .plain hc (ih hs)

/-- The characters of a string are a body: no quote stands in it without a backslash. -/
theorem IsCharacters.isBody {body : Text} (h : IsCharacters body) : IsBody body := by
  induction h with
  | nil => exact .nil
  | plain hc _ ih => exact .plain hc.2 ih
  | short _ _ ih => exact .escape _ ih
  | unit _ hds _ ih =>
    exact .escape 'u' (isBody_append (fun d hd => ⟨ne_of_class (hds d hd) rfl, ne_of_class (hds d hd) rfl⟩) ih)

end Json

namespace Highlight.Json

open Markdown.Json

variable {t rest : Text} {c : Char}

/-! ### Numbers -/

theorem runLength_append {p : Char → Bool} {ds : Text} (hds : ∀ d ∈ ds, p d = true)
    (hrest : ∀ c, rest.head? = some c → p c = false) : runLength p (ds ++ rest) = ds.length := by
  rw [runLength, List.takeWhile_append_of_pos hds]
  cases rest with
  | nil => simp
  | cons c rest => simp [hrest c rfl]

/-- A run of digits ends where no digit follows. -/
theorem runLength_digits {ds : Text} (hds : AreDigits ds)
    (hrest : ∀ c, rest.head? = some c → isDigit c = false) :
    runLength isDigit (ds ++ rest) = ds.length :=
  runLength_append (fun d hd => isDigit_of_isAsciiDigit (hds.2 d hd)) hrest

theorem isDigit_of_endsNumber (h : endsNumber c = true) : isDigit c = false := by
  simp only [endsNumber, Bool.and_eq_true, Bool.not_eq_true'] at h
  exact h.1.1.1

theorem exponentLength_append {x : Text} (hx : IsExponent x) (hrest : EndsNumber rest) :
    exponentLength (x ++ rest) = x.length := by
  cases hx with
  | none =>
    cases rest with
    | nil => rfl
    | cons c r =>
      have hc := hrest c rfl
      simp only [endsNumber, Bool.and_eq_true, bne_iff_ne] at hc
      simp [exponentLength, hc.1.2, hc.2]
  | @some e sign ds he hsign hds =>
    have hrun : runLength isDigit (ds ++ rest) = ds.length :=
      runLength_digits hds fun c hc => isDigit_of_endsNumber (hrest c hc)
    have hsize : ds.length ≠ 0 := by simpa using hds.1
    have hsigned : ∀ s : Char, s = '+' ∨ s = '-' →
        exponentLength (e :: s :: (ds ++ rest)) = ds.length + 2 := by
      rintro s (rfl | rfl)
      all_goals
        simp [exponentLength, he, hrun, hsize]
        omega
    rcases hsign with rfl | rfl | rfl
    · -- The first digit is no sign.
      obtain ⟨d, r, rfl⟩ := List.exists_cons_of_ne_nil hds.1
      have hd : isAsciiDigit d = true := hds.2 d List.mem_cons_self
      have hplus : d ≠ '+' := ne_of_class hd rfl
      have hminus : d ≠ '-' := ne_of_class hd rfl
      rw [List.cons_append] at hrun
      simp [exponentLength, he, hplus, hminus, hrun]
      omega
    · exact hsigned '+' (.inl rfl)
    · exact hsigned '-' (.inr rfl)

theorem fractionLength_append {x : Text} (hx : IsFraction x)
    (hrest : ∀ c, rest.head? = some c → isDigit c = false ∧ c ≠ '.') :
    fractionLength (x ++ rest) = x.length := by
  cases hx with
  | none =>
    cases rest with
    | nil => rfl
    | cons c r =>
      have hc := (hrest c rfl).2
      simp [fractionLength, hc]
  | @some ds hds =>
    have hrun : runLength isDigit (ds ++ rest) = ds.length :=
      runLength_digits hds fun c hc => (hrest c hc).1
    have hsize : ds.length ≠ 0 := by simpa using hds.1
    simp [fractionLength, hrun, hsize]

theorem head_exponent {x : Text} (hx : IsExponent x) (hrest : EndsNumber rest) :
    ∀ c, (x ++ rest).head? = some c → isDigit c = false ∧ c ≠ '.' := by
  intro c hc
  cases hx with
  | none =>
    have hends := hrest c hc
    simp only [endsNumber, Bool.and_eq_true, Bool.not_eq_true', bne_iff_ne] at hends
    exact ⟨hends.1.1.1, hends.1.1.2⟩
  | some he =>
    obtain rfl := Option.some.inj hc
    rcases he with rfl | rfl <;> exact ⟨rfl, by decide⟩

theorem head_fraction {x more : Text} (hx : IsFraction x)
    (hmore : ∀ c, more.head? = some c → isDigit c = false ∧ c ≠ '.') :
    ∀ c, (x ++ more).head? = some c → isDigit c = false := by
  intro c hc
  cases hx with
  | none => exact (hmore c hc).1
  | some h =>
    obtain rfl := Option.some.inj hc
    rfl

/-- The digits of a number are read with its fraction and its exponent. -/
theorem numberLength_append (ht : IsNumber t) (hrest : EndsNumber rest) :
    numberLength (t ++ rest) = t.length := by
  obtain ⟨hsign, ⟨hwhole, -⟩, hfraction, hexponent⟩ := ht
  next sign whole fraction exponent =>
  have hmore := head_exponent hexponent hrest
  have hrun : runLength isDigit (whole ++ (fraction ++ (exponent ++ rest))) = whole.length :=
    runLength_digits hwhole (head_fraction hfraction hmore)
  have hfractionLength := fractionLength_append hfraction hmore
  have hexponentLength := exponentLength_append hexponent hrest
  have hdrop : ∀ n : Nat, n = sign.length →
      (sign ++ (whole ++ (fraction ++ exponent)) ++ rest).drop n =
        whole ++ (fraction ++ (exponent ++ rest)) := by
    rintro n rfl
    simp
  have hsignLength : (if (sign ++ (whole ++ (fraction ++ exponent)) ++ rest).head? = some '-' then 1 else 0) =
      sign.length := by
    rcases hsign with rfl | rfl
    · obtain ⟨d, r, rfl⟩ := List.exists_cons_of_ne_nil hwhole.1
      have hminus : d ≠ '-' := ne_of_class (hwhole.2 d List.mem_cons_self) rfl
      simp [hminus]
    · rfl
  have hne : whole.length ≠ 0 := by simpa using hwhole.1
  unfold numberLength
  dsimp only
  rw [hsignLength, hdrop _ rfl, hrun, if_neg hne, ← List.drop_drop, hdrop _ rfl, List.drop_left,
    hfractionLength, ← List.drop_drop, ← List.drop_drop, hdrop _ rfl, List.drop_left, List.drop_left,
    hexponentLength]
  simp only [List.length_append]
  omega

/-! ### Spans of tokens -/

/-- The class in which a token is shown. -/
def roleClass : Role → Option SpanClass
  | .space => none
  | .mark => some .punctuation
  | .name => some .key
  | .string => some .string
  | .number => some .number
  | .truth => some .boolean
  | .null => some .null

/-- A token as a span. -/
def span (t : Lexical) : Span :=
  ⟨roleClass t.label, t.text⟩

/-- A step that takes a text makes it a span. -/
theorem spans_of_step {k : Option SpanClass} {r : Text} (h : step () c (r ++ rest) = cut r.length k ()) :
    spans (c :: r ++ rest) = ⟨k, c :: r⟩ :: spans rest := by
  rw [spans, List.cons_append, segment_cons, h]
  simp [cut, spans]

theorem spans_space (hc : Json.isBlank c = true) : spans (c :: rest) = ⟨none, [c]⟩ :: spans rest := by
  have hstep : step () c ([] ++ rest) = cut 0 none () := by
    rcases eq_of_isBlank hc with rfl | rfl | rfl | rfl <;> rfl
  exact spans_of_step hstep

theorem spans_mark (hc : isMark c = true) : spans (c :: rest) = ⟨some .punctuation, [c]⟩ :: spans rest := by
  have hstep : step () c ([] ++ rest) = cut 0 (some .punctuation) () := by
    rcases eq_of_isMark hc with rfl | rfl | rfl | rfl | rfl | rfl <;> rfl
  exact spans_of_step hstep

theorem spans_truth (ht : t = "true".toList ∨ t = "false".toList) :
    spans (t ++ rest) = ⟨some .boolean, t⟩ :: spans rest := by
  rcases ht with rfl | rfl
  · exact spans_of_step (c := 't') (r := ['r', 'u', 'e']) rfl
  · exact spans_of_step (c := 'f') (r := ['a', 'l', 's', 'e']) rfl

theorem spans_null : spans ("null".toList ++ rest) = ⟨some .null, "null".toList⟩ :: spans rest :=
  spans_of_step (c := 'n') (r := ['u', 'l', 'l']) rfl

/-- A string is read up to its own quote. -/
theorem quotedLength_append {body : Text} (hbody : IsBody body) :
    quotedLength true false '"' (body ++ '"' :: rest) = body.length + 1 := by
  induction hbody with
  | nil =>
    rw [List.nil_append, quotedLength.eq_def]
    simp
  | escape c _ ih => simp [quotedLength, ih]
  | plain hc _ ih =>
    rw [List.cons_append, quotedLength.eq_def]
    simp [ih, hc]

theorem spans_number (ht : IsNumber t) (hrest : EndsNumber rest) :
    spans (t ++ rest) = ⟨some .number, t⟩ :: spans rest := by
  have hlength := numberLength_append ht hrest
  obtain ⟨c, r, rfl, hc⟩ : ∃ c r, t = c :: r ∧ c ≠ '"' := by
    obtain ⟨hsign, ⟨hwhole, -⟩, -, -⟩ := ht
    obtain ⟨d, ds, rfl⟩ := List.exists_cons_of_ne_nil hwhole.1
    rcases hsign with rfl | rfl
    · exact ⟨d, _, rfl, ne_of_class (hwhole.2 d List.mem_cons_self) rfl⟩
    · exact ⟨'-', _, rfl, by decide⟩
  apply spans_of_step
  rw [List.cons_append] at hlength
  rw [step, if_neg hc, hlength]
  rfl

/-- The cut of a string, if the text behind it is known. -/
theorem step_string (ht : IsString t) : ∃ r, t = '"' :: r ∧ ∀ rest, step () '"' (r ++ rest) =
    if (trimStart rest).head? = some ':' then cut r.length (some .key) ()
    else cut r.length (some .string) () := by
  cases ht with
  | @quoted body hbody =>
  refine ⟨body ++ ['"'], rfl, fun rest => ?_⟩
  have hlength : quotedLength true false '"' (body ++ ['"'] ++ rest) = (body ++ ['"']).length := by
    simpa using quotedLength_append hbody.isBody
  rw [step, if_pos rfl, hlength]
  dsimp only
  rw [List.drop_left]

/-- A string in front of a colon is a key. -/
theorem spans_name (ht : IsString t) {ws : Text} (hws : ∀ c ∈ ws, Json.isBlank c = true) :
    spans (t ++ (ws ++ ':' :: rest)) = ⟨some .key, t⟩ :: spans (ws ++ ':' :: rest) := by
  obtain ⟨r, rfl, hstep⟩ := step_string ht
  have hcolon : (trimStart (ws ++ ':' :: rest)).head? = some ':' := by
    rw [trimStart_append (allBlank_of_isBlank hws), trimStart_cons rfl]
    rfl
  apply spans_of_step
  rw [hstep, if_pos hcolon]

/-- Any other string is none. -/
theorem spans_string (ht : IsString t) (hrest : Closes rest) :
    spans (t ++ rest) = ⟨some .string, t⟩ :: spans rest := by
  obtain ⟨r, rfl, hstep⟩ := step_string ht
  apply spans_of_step
  rw [hstep, if_neg hrest.head_trimStart_ne]

theorem spans_spaces {ws : Text} (hws : ∀ c ∈ ws, Json.isBlank c = true) :
    spans (ws ++ rest) = (spaces ws).map span ++ spans rest := by
  induction ws with
  | nil => rfl
  | cons c ws ih =>
    obtain ⟨hc, hws⟩ := List.forall_mem_cons.mp hws
    rw [List.cons_append, spans_space hc, ih hws]
    rfl

/-! ### Texts of the grammar -/

@[simp] theorem source_cons (t : Lexical) (ts : List Lexical) : source (t :: ts) = t.text ++ source ts :=
  rfl

@[simp] theorem source_append (ts us : List Lexical) : source (ts ++ us) = source ts ++ source us :=
  List.flatMap_append

@[simp] theorem source_spaces (ws : Text) : source (spaces ws) = ws := by
  induction ws with
  | nil => rfl
  | cons c ws ih => exact congrArg (c :: ·) ih

/-- Tokens between brackets. -/
theorem spans_bracketed {opening closing : Char} (hopening : isMark opening = true)
    (hclosing : isMark closing = true) {ts : List Lexical}
    (h : spans (source ts ++ closing :: rest) = ts.map span ++ spans (closing :: rest)) :
    spans (source (mark opening :: (ts ++ [mark closing])) ++ rest) =
      (mark opening :: (ts ++ [mark closing])).map span ++ spans rest := by
  have hsource : source (mark opening :: (ts ++ [mark closing])) ++ rest =
      opening :: (source ts ++ closing :: rest) := by
    simp [mark, source]
  rw [hsource, spans_mark hopening, h, spans_mark hclosing]
  simp [mark, span, roleClass]

/-- Tokens in front of a comma and others behind it. -/
theorem spans_listed {ts us : List Lexical}
    (h : spans (source ts ++ ',' :: (source us ++ rest)) = ts.map span ++ spans (',' :: (source us ++ rest)))
    (hmore : spans (source us ++ rest) = us.map span ++ spans rest) :
    spans (source (ts ++ mark ',' :: us) ++ rest) = (ts ++ mark ',' :: us).map span ++ spans rest := by
  have hsource : source (ts ++ mark ',' :: us) ++ rest = source ts ++ ',' :: (source us ++ rest) := by
    simp [mark]
  rw [hsource, h, spans_mark rfl, hmore]
  simp [mark, span, roleClass]

/-- The tokens of a symbol are the spans of their text, whatever may follow a value. -/
theorem spans_source_append {x : Symbol} {ts : List Lexical} (h : Derives x ts) (hrest : Closes rest) :
    spans (source ts ++ rest) = ts.map span ++ spans rest := by
  have hone : ∀ p : Lexical, source [p] = p.text := fun p => List.append_nil p.text
  -- A part is scanned with all that stands behind it, so the induction is for every rest.
  induction h generalizing rest with
  | truth ht =>
    rw [hone]
    exact spans_truth ht
  | null =>
    rw [hone]
    exact spans_null
  | number ht =>
    rw [hone]
    exact spans_number ht hrest.endsNumber
  | string ht =>
    rw [hone]
    exact spans_string ht hrest
  | noElements hws =>
    refine spans_bracketed rfl rfl ?_
    rw [source_spaces]
    exact spans_spaces hws
  | array _ ih => exact spans_bracketed rfl rfl (ih (.mark (.inr (.inl rfl))))
  | noMembers hws =>
    refine spans_bracketed rfl rfl ?_
    rw [source_spaces]
    exact spans_spaces hws
  | object _ ih => exact spans_bracketed rfl rfl (ih (.mark (.inr (.inr rfl))))
  | element hbefore _ hbehind ih =>
    rw [source_append, source_append, source_spaces, source_spaces, List.append_assoc,
      List.append_assoc, spans_spaces hbefore, ih (hrest.behind hbehind), spans_spaces hbehind]
    simp
  | lastElement _ ih => exact ih hrest
  | nextElement _ _ ih ihmore => exact spans_listed (ih (.mark (.inl rfl))) (ihmore hrest)
  | @member before behind t ts hbefore ht hbehind _ ih =>
    have hsource : source (spaces before ++ ⟨.name, t⟩ :: (spaces behind ++ mark ':' :: ts)) ++ rest =
        before ++ (t ++ (behind ++ ':' :: (source ts ++ rest))) := by
      simp [mark]
    rw [hsource, spans_spaces hbefore, spans_name ht hbehind, spans_spaces hbehind, spans_mark rfl,
      ih hrest]
    simp [mark, span, roleClass]
  | lastMember _ ih => exact ih hrest
  | nextMember _ _ ih ihmore => exact spans_listed (ih (.mark (.inl rfl))) (ihmore hrest)

/-- The spans of a JSON text are its tokens. -/
theorem spans_source {ts : List Lexical} (h : AreTokens ts) : spans (source ts) = ts.map span := by
  have hspans := spans_source_append h .ended
  have hnil : spans [] = [] := segment_nil _ _
  rwa [List.append_nil, hnil, List.append_nil] at hspans

theorem span_injective : Function.Injective span := by
  rintro ⟨x, t⟩ ⟨y, u⟩ h
  obtain ⟨hrole, rfl⟩ := Segment.mk.inj h
  cases x <;> cases y <;> first | rfl | cases hrole

/-- **Highlighted JSON follows the grammar.** Take any text of the grammar of JSON with its tokens. Without
toggles, its HTML is that of the tokens in order, each written for HTML in the tags of the class of its
role, and white space without tags. No other tokens make up the text. -/
theorem highlight_follows_grammar {code : Text} {ts : List Lexical} (h : AreTokens ts)
    (hcode : source ts = code) :
    highlight none code = pure (ts.flatMap fun t => spanHtml (span t)) ∧
      ∀ us, AreTokens us → source us = code → us = ts := by
  subst hcode
  constructor
  · show (pure (spansHtml (spans (source ts))) : Report Text) = _
    rw [spans_source h, spansHtml, List.flatMap_map]
  · intro us hus hsource
    apply span_injective.list_map
    rw [← spans_source hus, hsource, spans_source h]

/-- White space around the marks, an escape in a name, a number with all its parts, and an empty object. -/
theorem highlight_follows_grammar_nested :
    let code := "\x7b\"a\\u0041\" : [ -0.5e+1 , true, \x7b\x7d ] \x7d".toList
    ∃ ts, (AreTokens ts ∧ source ts = code) ∧
      (highlight none code = pure (ts.flatMap fun t => spanHtml (span t)) ∧
        ∀ us, AreTokens us → source us = code → us = ts) := by
  have hnone : ∀ c ∈ ([] : Text), Json.isBlank c = true := List.forall_mem_nil _
  have hblank : ∀ c ∈ [' '], Json.isBlank c = true := List.forall_mem_singleton.mpr rfl
  have hunit : ∀ d ∈ "0041".toList, isHexDigit d = true := List.all_eq_true.mp rfl
  have hname : IsString "\"a\\u0041\"".toList :=
    .quoted (.plain (by decide) (.unit rfl hunit .nil))
  have hdigit : ∀ {d}, isAsciiDigit d = true → AreDigits [d] := fun hd =>
    ⟨List.cons_ne_nil _ _, List.forall_mem_singleton.mpr hd⟩
  have hnumber : IsNumber (['-'] ++ (['0'] ++ ('.' :: ['5'] ++ 'e' :: (['+'] ++ ['1'])))) :=
    .parts (.inr rfl) ⟨hdigit rfl, fun _ => rfl⟩ (.some (hdigit rfl))
      (.some (.inl rfl) (.inr (.inl rfl)) (hdigit rfl))
  have helements := Derives.nextElement (.element hblank (.number hnumber) hblank)
    (.nextElement (.element hblank (.truth (.inl rfl)) hnone)
      (.lastElement (.element hblank (.noMembers hnone) hblank)))
  have hmember := Derives.member hnone hname hblank (.element hblank (.array helements) hblank)
  have htokens : AreTokens _ := .element hnone (.object (.lastMember hmember)) hnone
  exact ⟨_, ⟨htokens, rfl⟩, highlight_follows_grammar htokens rfl⟩

end Highlight.Json

end Markdown
