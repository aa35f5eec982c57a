import Markdown.Highlight.Nested
import Markdown.Proofs.JsonNumbers
import Markdown.Proofs.JsonScalars

/-!
# Pretty-printed JSON is read back

The writer puts each item and member of a container on a line of its own and escapes all line feeds in
strings, so every line feed of the printed form stands between two tokens. Shifting the lines to the
right therefore adds white space between tokens only, and the tokens are those of the value at every
column (`Highlight.Nested.lex_format`). From these the reader builds the value again, container by
container (`Json.reads_of_tokensOf?`). Only a whole number with more than 4300 digits has no token, and
no value that has been read holds one (`Json.isShort_of_read?`).
-/

namespace Markdown

open Text

namespace Json

variable {c : Char} {rest t : Text} {done : List Token} {v : Json}

/-! ### Values -/

/-- A value that is kept exactly: a number is whole, and the names in an object differ. -/
def IsExact : Json → Prop
  | .float _ => False
  | .object ms => (ms.map Prod.fst).Nodup
  | _ => True

/-- The tokens of some parts with commas between them, if all parts have tokens. -/
def listed : List (Option (List Token)) → Option (List Token)
  | [] => some []
  | [part] => part
  | part :: next :: parts => do
    let ts ← part
    let more ← listed (next :: parts)
    pure (ts ++ .mark ',' :: more)

mutual

/-- The tokens of a value. A whole number with too many digits has none. -/
def tokensOf? : Json → Option (List Token)
  | .null => some [.scalar .null]
  | .bool b => some [.scalar (.bool b)]
  | .integer n => if maxDigits < (ofNat n.natAbs).length then none else some [.scalar (.integer n)]
  | .float _ => none
  | .string t => some [.string t]
  | .array xs => (listed (itemTokens xs)).map fun ts => .mark '[' :: (ts ++ [.mark ']'])
  | .object ms => (listed (memberTokens ms)).map fun ts => .mark '{' :: (ts ++ [.mark '}'])

/-- The tokens of each item. -/
def itemTokens : List Json → List (Option (List Token))
  | [] => []
  | v :: r => tokensOf? v :: itemTokens r

/-- The tokens of each member. -/
def memberTokens : List (Text × Json) → List (Option (List Token))
  | [] => []
  | (k, v) :: r => ((tokensOf? v).map fun ts => .string k :: .mark ':' :: ts) :: memberTokens r

end

/-! ### Scanning values -/

/-- A text has some tokens in front of anything that may stand behind a value, or does not belong to
JSON. -/
def Scans (t : Text) (ts? : Option (List Token)) : Prop :=
  ∀ done rest, Closes rest → scan done (t ++ rest) = ts?.bind fun ts => scan (ts.reverse ++ done) rest

/-- The text with the lines behind the first shifted right. -/
def shifted (column : Nat) (t : Text) : Text :=
  t.flatMap fun c => if c = '\n' then '\n' :: List.replicate column ' ' else [c]

theorem shifted_cons (column : Nat) (c : Char) (t : Text) :
    shifted column (c :: t) =
      (if c = '\n' then '\n' :: List.replicate column ' ' else [c]) ++ shifted column t :=
  rfl

variable {column depth : Nat}

@[simp] theorem shifted_append (s t : Text) : shifted column (s ++ t) = shifted column s ++ shifted column t :=
  List.flatMap_append

theorem shifted_of_notMem (h : '\n' ∉ t) : shifted column t = t := by
  induction t with
  | nil => rfl
  | cons c t ih =>
    have hc : c ≠ '\n' := ne_of_mem_of_not_mem List.mem_cons_self h
    rw [shifted_cons, if_neg hc, ih (List.not_mem_of_not_mem_cons h)]
    rfl

theorem isBlank_of_mem_shifted_newline (hc : c ∈ shifted column (newline depth)) : isBlank c = true := by
  have hspaces : '\n' ∉ List.replicate (2 * depth) ' ' := by simp
  rw [newline, shifted_cons, shifted_of_notMem hspaces] at hc
  simp only [if_true, List.cons_append, List.mem_cons, List.mem_append, List.mem_replicate] at hc
  rcases hc with rfl | ⟨-, rfl⟩ | ⟨-, rfl⟩ <;> rfl

theorem scans_word {word : Text} (h : (word, v) ∈ [("null".toList, Json.null),
    ("true".toList, .bool true), ("false".toList, .bool false)]) :
    Scans (shifted column word) (some [.scalar v]) := by
  intro done rest _
  simp only [List.mem_cons, List.not_mem_nil, or_false, Prod.mk.injEq] at h
  rcases h with ⟨rfl, rfl⟩ | ⟨rfl, rfl⟩ | ⟨rfl, rfl⟩
  · exact scan_of_step (c := 'n') (r := ['u', 'l', 'l']) rfl
  · exact scan_of_step (c := 't') (r := ['r', 'u', 'e']) rfl
  · exact scan_of_step (c := 'f') (r := ['a', 'l', 's', 'e']) rfl

theorem scans_ofInt (n : Int) : Scans (shifted column (ofInt n)) (tokensOf? (.integer n)) := by
  intro done rest hrest
  have hline : '\n' ∉ ofInt n := by
    have hdigits : '\n' ∉ ofNat n.natAbs := fun hmem => absurd (isAsciiDigit_of_mem_ofNat hmem) (by decide)
    rw [ofInt_eq]
    split <;> simp [hdigits]
  rw [shifted_of_notMem hline, scan_ofInt n hrest.endsNumber, tokensOf?]
  split <;> rfl

theorem scans_quote (t : Text) : Scans (shifted column (quote t)) (some [.string t]) := by
  intro done rest _
  rw [shifted_of_notMem (newline_notMem_quote t)]
  exact scan_quote t

/-- A member has its key and a colon in front of the tokens of its value. -/
theorem scans_member {ts? : Option (List Token)} (k : Text) (h : Scans (shifted column t) ts?) :
    Scans (shifted column (quote k ++ ':' :: ' ' :: t))
      (ts?.map fun ts => .string k :: .mark ':' :: ts) := by
  intro done rest hrest
  have hsplit : shifted column (quote k ++ ':' :: ' ' :: t) ++ rest =
      quote k ++ ':' :: ([' '] ++ (shifted column t ++ rest)) := by
    rw [shifted_append, shifted_of_notMem (newline_notMem_quote k)]
    simp [shifted]
  rw [hsplit, scan_quote, scan_mark rfl, scan_spaces (List.forall_mem_singleton.mpr rfl), h _ _ hrest]
  cases ts? <;> simp

/-- Parts on lines of their own, with commas behind them. -/
theorem scans_intercalate {parts : List Text} {tss : List (Option (List Token))}
    (h : List.Forall₂ (fun part ts? => Scans (shifted column part) ts?) parts tss) (hne : parts ≠ []) :
    Scans (shifted column ((',' :: newline depth).intercalate parts)) (listed tss) := by
  induction h with
  | nil => exact absurd rfl hne
  | @cons part ts? parts tss hpart hparts ih =>
    cases hparts with
    | nil =>
      rw [List.intercalate_singleton]
      exact hpart
    | @cons next us? parts tss hnext hparts =>
      intro done rest hrest
      have hsplit : shifted column ((',' :: newline depth).intercalate (part :: next :: parts)) ++ rest =
          shifted column part ++ ',' :: (shifted column (newline depth) ++
            (shifted column ((',' :: newline depth).intercalate (next :: parts)) ++ rest)) := by
        rw [List.intercalate_cons_cons, shifted_append, shifted_append]
        simp [shifted]
      rw [hsplit, hpart _ _ (.mark (.inl rfl)), listed]
      cases ts? with
      | none => rfl
      | some ts =>
        rw [Option.bind_some, scan_mark rfl, scan_spaces fun _ => isBlank_of_mem_shifted_newline,
          ih (List.cons_ne_nil _ _) _ _ hrest]
        cases listed (us? :: tss) <;> simp

/-- Parts between brackets. -/
theorem scans_bracket {opening closing : Char} (hopening : isMark opening = true)
    (hclosing : closing = ']' ∨ closing = '}') {parts : List Text} {tss : List (Option (List Token))}
    (h : List.Forall₂ (fun part ts? => Scans (shifted column part) ts?) parts tss) :
    Scans (shifted column (bracket opening closing depth parts))
      ((listed tss).map fun ts => .mark opening :: (ts ++ [.mark closing])) := by
  intro done rest hrest
  have hmark : isMark closing = true := by rcases hclosing with rfl | rfl <;> rfl
  have hline : ∀ {c}, isMark c = true → c ≠ '\n' := fun hc heq => by
    rw [heq] at hc
    cases hc
  cases h with
  | nil =>
    have hboth : '\n' ∉ [opening, closing] := by simp [(hline hopening).symm, (hline hmark).symm]
    have hwrite : shifted column (bracket opening closing depth []) = [opening, closing] :=
      shifted_of_notMem hboth
    rw [hwrite, List.cons_append, scan_mark hopening, List.singleton_append, scan_mark hmark]
    rfl
  | @cons part ts? parts tss hpart hparts =>
    have hsplit : shifted column (bracket opening closing depth (part :: parts)) ++ rest =
        opening :: (shifted column (newline (depth + 1)) ++
          (shifted column ((',' :: newline (depth + 1)).intercalate (part :: parts)) ++
            (shifted column (newline depth) ++ closing :: rest))) := by
      simp [bracket, shifted, hline hopening, hline hmark]
    have hspaces : ∀ depth, ∀ c ∈ shifted column (newline depth), isBlank c = true :=
      fun _ _ => isBlank_of_mem_shifted_newline
    have hcloses : Closes (shifted column (newline depth) ++ closing :: rest) :=
      (Closes.mark (.inr hclosing)).behind (hspaces depth)
    rw [hsplit, scan_mark hopening, scan_spaces (hspaces _),
      scans_intercalate (.cons hpart hparts) (List.cons_ne_nil _ _) _ _ hcloses]
    cases listed (ts? :: tss) with
    | none => rfl
    | some ts =>
      rw [Option.bind_some, scan_spaces (hspaces _), scan_mark hmark]
      simp

theorem scans_items {xs : List Json}
    (h : ∀ x ∈ xs, Scans (shifted column (prettyAt depth x)) (tokensOf? x)) :
    List.Forall₂ (fun part ts? => Scans (shifted column part) ts?) (prettyItems depth xs)
      (itemTokens xs) := by
  induction xs with
  | nil => exact .nil
  | cons x xs ih =>
    obtain ⟨hx, hxs⟩ := List.forall_mem_cons.mp h
    exact .cons hx (ih hxs)

theorem scans_members {ms : List (Text × Json)}
    (h : ∀ x ∈ ms.map Prod.snd, Scans (shifted column (prettyAt depth x)) (tokensOf? x)) :
    List.Forall₂ (fun part ts? => Scans (shifted column part) ts?) (prettyMembers depth ms)
      (memberTokens ms) := by
  induction ms with
  | nil => exact .nil
  | cons m ms ih =>
    obtain ⟨hm, hms⟩ := List.forall_mem_cons.mp h
    exact .cons (scans_member m.1 hm) (ih hms)

/-- The printed form of a value has the tokens of the value, at every depth and every column. -/
theorem scans_prettyAt (hv : v.Everywhere IsExact) (column depth : Nat) :
    Scans (shifted column (prettyAt depth v)) (tokensOf? v) := by
  induction hv generalizing depth with
  | @intro v here inside ih =>
    cases v with
    | null => exact scans_word (by simp [prettyAt])
    | bool b => cases b <;> exact scans_word (by simp [prettyAt])
    | integer n => exact scans_ofInt n
    | float x => exact absurd here id
    | string t => exact scans_quote t
    | array xs =>
      rw [prettyAt, tokensOf?]
      exact scans_bracket rfl (.inl rfl) (scans_items fun x hx => ih x hx (depth + 1))
    | object ms =>
      rw [prettyAt, tokensOf?]
      exact scans_bracket rfl (.inr rfl) (scans_members fun x hx => ih x hx (depth + 1))

/-! ### Reading values -/

/-- The reader builds a value from some tokens, whatever is open around it. -/
def Reads (ts : List Token) (v : Json) : Prop :=
  ∀ stack, ts.foldlM advance (.value stack) = some (.after v stack)

/-- Where a value starts, an array just opened goes on like one with items. -/
theorem foldlM_firstItem {ts : List Token} {stack : List Frame} {q : Progress} (hne : ts ≠ [])
    (h : ts.foldlM advance (.value (.array [] :: stack)) = some q) :
    ts.foldlM advance (.firstItem stack) = some q := by
  obtain ⟨t, ts, rfl⟩ := List.exists_cons_of_ne_nil hne
  have hadvance : advance (.firstItem stack) t = advance (.value (.array [] :: stack)) t := by
    by_cases hclose : t = .mark ']'
    · rw [hclose] at h
      cases h
    · simp [advance]
  rw [List.foldlM_cons, hadvance, ← List.foldlM_cons, h]

/-- Where a name stands, an object just opened goes on like one with members. -/
theorem foldlM_firstKey {ts : List Token} {stack : List Frame} {q : Progress} (hne : ts ≠ [])
    (h : ts.foldlM advance (.key [] stack) = some q) : ts.foldlM advance (.firstKey stack) = some q := by
  obtain ⟨t, ts, rfl⟩ := List.exists_cons_of_ne_nil hne
  cases t with
  | mark c => cases h
  | string k => exact h
  | scalar v => cases h

/-- The items of an array are read behind one another. -/
theorem foldlM_items {xs : List Json} (hne : xs ≠ [])
    (hxs : ∀ x ∈ xs, ∀ ts, tokensOf? x = some ts → Reads ts x) {ts : List Token}
    (hts : listed (itemTokens xs) = some ts) (before : List Json) (stack : List Frame) :
    (ts ++ [Token.mark ']']).foldlM advance (.value (.array before :: stack)) =
      some (.after (.array (before.reverse ++ xs)) stack) := by
  induction xs generalizing before ts with
  | nil => exact absurd rfl hne
  | cons x xs ih =>
    obtain ⟨hx, hxs⟩ := List.forall_mem_cons.mp hxs
    cases xs with
    | nil =>
      rw [List.foldlM_append, hx ts hts]
      simp [advance, continueWith]
    | cons y xs =>
      simp only [itemTokens, listed] at hts
      obtain ⟨us, hus, hts⟩ := Option.bind_eq_some_iff.mp hts
      obtain ⟨more, hmore, hts⟩ := Option.bind_eq_some_iff.mp hts
      obtain rfl := Option.some.inj hts
      have hrest := ih (List.cons_ne_nil y xs) hxs hmore (x :: before)
      rw [List.append_assoc, List.foldlM_append, hx us hus]
      simpa [advance, continueWith] using hrest

/-- The members of an object are read behind one another. -/
theorem foldlM_members {ms : List (Text × Json)} (hne : ms ≠ [])
    (hms : ∀ x ∈ ms.map Prod.snd, ∀ ts, tokensOf? x = some ts → Reads ts x) {ts : List Token}
    (hts : listed (memberTokens ms) = some ts) (before : List (Text × Json)) (stack : List Frame) :
    (ts ++ [Token.mark '}']).foldlM advance (.key before stack) =
      some (.after (ofMembers (before.reverse ++ ms)) stack) := by
  induction ms generalizing before ts with
  | nil => exact absurd rfl hne
  | cons m ms ih =>
    obtain ⟨k, v⟩ := m
    obtain ⟨hv, hms⟩ := List.forall_mem_cons.mp hms
    cases ms with
    | nil =>
      obtain ⟨us, hus, rfl⟩ := Option.map_eq_some_iff.mp hts
      have hvalue := hv us hus (.object before k :: stack)
      simp [advance, hvalue, continueWith]
    | cons m ms =>
      simp only [memberTokens, listed] at hts
      obtain ⟨us, hus, hts⟩ := Option.bind_eq_some_iff.mp hts
      obtain ⟨more, hmore, hts⟩ := Option.bind_eq_some_iff.mp hts
      obtain ⟨part, hpart, rfl⟩ := Option.map_eq_some_iff.mp hus
      obtain rfl := Option.some.inj hts
      have hvalue := hv part hpart (.object before k :: stack)
      have hrest := ih (List.cons_ne_nil m ms) hms hmore ((k, v) :: before)
      simpa [advance, hvalue, continueWith] using hrest

theorem putMember_of_notMem {ms : List (Text × Json)} {k : Text} (hk : k ∉ ms.map Prod.fst) (v : Json) :
    putMember ms k v = ms ++ [(k, v)] := by
  induction ms with
  | nil => rfl
  | cons m ms ih =>
    have hne : m.1 ≠ k := fun heq => hk (heq ▸ List.mem_cons_self)
    simp [putMember, hne, ih (List.not_mem_of_not_mem_cons hk)]

theorem foldl_putMember {before ms : List (Text × Json)} (h : ((before ++ ms).map Prod.fst).Nodup) :
    ms.foldl (fun acc m => putMember acc m.1 m.2) before = before ++ ms := by
  induction ms generalizing before with
  | nil => simp
  | cons m ms ih =>
    have hm : m.1 ∉ before.map Prod.fst := by
      rw [List.map_append, List.nodup_append] at h
      exact fun hmem => h.2.2 _ hmem _ List.mem_cons_self rfl
    rw [List.foldl_cons, putMember_of_notMem hm, ih (by simpa using h), List.append_assoc]
    rfl

/-- Members with different names are all kept. -/
theorem ofMembers_of_nodup {ms : List (Text × Json)} (h : (ms.map Prod.fst).Nodup) :
    ofMembers ms = .object ms := by
  rw [ofMembers, foldl_putMember (by rwa [List.nil_append])]
  rfl

/-- The tokens of a value are read as the value. -/
theorem reads_of_tokensOf? (hv : v.Everywhere IsExact) {ts : List Token} (hts : tokensOf? v = some ts) :
    Reads ts v := by
  induction hv generalizing ts with
  | @intro v here inside ih =>
    intro stack
    cases v with
    | null =>
      obtain rfl := Option.some.inj hts
      rfl
    | bool b =>
      obtain rfl := Option.some.inj hts
      rfl
    | integer n =>
      rw [tokensOf?] at hts
      split at hts
      · cases hts
      · obtain rfl := Option.some.inj hts
        rfl
    | float x => exact absurd here id
    | string t =>
      obtain rfl := Option.some.inj hts
      rfl
    | array xs =>
      obtain ⟨us, hus, rfl⟩ := Option.map_eq_some_iff.mp hts
      cases xs with
      | nil =>
        obtain rfl := Option.some.inj hus
        rfl
      | cons x xs =>
        have hitems := foldlM_items (List.cons_ne_nil x xs) (fun x hx _ => ih x hx) hus [] stack
        exact foldlM_firstItem (by simp) hitems
    | object ms =>
      obtain ⟨us, hus, rfl⟩ := Option.map_eq_some_iff.mp hts
      cases ms with
      | nil =>
        obtain rfl := Option.some.inj hus
        rfl
      | cons m ms =>
        have hmembers := foldlM_members (List.cons_ne_nil m ms) (fun x hx _ => ih x hx) hus [] stack
        rw [List.reverse_nil, List.nil_append, ofMembers_of_nodup here] at hmembers
        exact foldlM_firstKey (by simp) hmembers

/-! ### Numbers that are too long -/

theorem isSome_listed_iff {tss : List (Option (List Token))} :
    (listed tss).isSome = true ↔ ∀ ts? ∈ tss, ts?.isSome = true := by
  induction tss with
  | nil => simp [listed]
  | cons part parts ih =>
    cases parts with
    | nil => simp [listed]
    | cons next parts =>
      rw [List.forall_mem_cons, ← ih, listed]
      cases part <;> cases listed (next :: parts) <;> simp

theorem isSome_itemTokens_iff {xs : List Json} :
    (∀ ts? ∈ itemTokens xs, ts?.isSome = true) ↔ ∀ x ∈ xs, (tokensOf? x).isSome = true := by
  induction xs with
  | nil => simp [itemTokens]
  | cons x xs ih => rw [itemTokens, List.forall_mem_cons, List.forall_mem_cons, ih]

theorem isSome_memberTokens_iff {ms : List (Text × Json)} :
    (∀ ts? ∈ memberTokens ms, ts?.isSome = true) ↔
      ∀ x ∈ ms.map Prod.snd, (tokensOf? x).isSome = true := by
  induction ms with
  | nil => simp [memberTokens]
  | cons m ms ih =>
    rw [memberTokens, List.map_cons, List.forall_mem_cons, List.forall_mem_cons, ih, Option.isSome_map]

/-- A value has tokens exactly if none of its whole numbers has too many digits. -/
theorem isSome_tokensOf?_iff (hv : v.Everywhere IsExact) :
    (tokensOf? v).isSome = true ↔ v.Everywhere IsShort := by
  induction hv with
  | @intro v here inside ih =>
    rw [everywhere_iff]
    cases v with
    | null => simp [tokensOf?, IsShort, children]
    | bool b => simp [tokensOf?, IsShort, children]
    | integer n => simp [tokensOf?, IsShort, children]
    | float x => exact absurd here id
    | string t => simp [tokensOf?, IsShort, children]
    | array xs =>
      rw [tokensOf?, Option.isSome_map, isSome_listed_iff, isSome_itemTokens_iff]
      exact (forall₂_congr ih).trans (iff_of_eq (true_and _)).symm
    | object ms =>
      rw [tokensOf?, Option.isSome_map, isSome_listed_iff, isSome_memberTokens_iff]
      exact (forall₂_congr ih).trans (iff_of_eq (true_and _)).symm

/-! ### Lines -/

theorem shifted_zero (t : Text) : shifted 0 t = t := by
  induction t with
  | nil => rfl
  | cons c t ih =>
    rw [shifted_cons, ih]
    split
    · next hc =>
      rw [hc]
      rfl
    · rfl

/-- The lines of a shifted text. -/
theorem lines_shifted (column : Nat) (t : Text) :
    ∃ first rest, lines t = first :: rest ∧
      lines (shifted column t) = first :: rest.map (List.replicate column ' ' ++ ·) := by
  induction t with
  | nil => exact ⟨[], [], rfl, rfl⟩
  | cons c t ih =>
    obtain ⟨first, rest, hlines, hshifted⟩ := ih
    rw [shifted_cons]
    by_cases hc : c = '\n'
    · have hspaces : '\n' ∉ List.replicate column ' ' := by simp
      have hbehind := lines_append_of_not_mem hspaces (shifted column t)
      refine ⟨[], first :: rest, ?_, ?_⟩
      · rw [hc, lines, List.splitOn_cons_eq_if_modifyHead, if_pos (beq_self_eq_true _), ← lines, hlines]
      · rw [if_pos hc, List.cons_append, lines, List.splitOn_cons_eq_if_modifyHead,
          if_pos (beq_self_eq_true _), ← lines, hbehind, hshifted]
        rfl
    · have hfront : '\n' ∉ [c] := fun hmem => hc (List.mem_singleton.mp hmem).symm
      refine ⟨c :: first, rest, ?_, ?_⟩
      · rw [← List.singleton_append, lines_append_of_not_mem hfront, hlines]
        rfl
      · rw [if_neg hc, lines_append_of_not_mem hfront, hshifted]
        rfl

end Json

namespace Highlight.Nested

open Markdown.Json

variable {v : Markdown.Json}

/-- The shifted lines have the tokens of the value. -/
theorem lex_format (hv : v.Everywhere IsExact) (column : Nat) : lex (format v column) = tokensOf? v := by
  have hscan := scans_prettyAt hv column 0 [] [] .ended
  rw [List.append_nil] at hscan
  refine hscan.trans ?_
  cases tokensOf? v <;> simp [scan, lexemes, segment_nil, tokensOnto]

theorem read?_format (hv : v.Everywhere IsExact) (column : Nat) :
    Markdown.Json.read? (format v column) = if (tokensOf? v).isSome then some v else none := by
  rw [Markdown.Json.read?, lex_format hv]
  cases hts : tokensOf? v with
  | none => rfl
  | some ts =>
    have hvalue : ofTokens? ts = some v := by rw [ofTokens?, reads_of_tokensOf? hv hts []]
    exact hvalue

/-- What is taken for nested JSON is JSON. -/
theorem exists_read?_of_value {t : Text} (h : (read? t).value = some v) :
    ∃ s, Markdown.Json.read? s = some v := by
  unfold read? at h
  dsimp only at h
  split at h
  · cases h
  · next c r _ =>
    split at h
    · cases h
    · split at h
      · split at h
        · next hread =>
          cases h
          exact ⟨_, hread⟩
        · next hread =>
          cases h
          exact ⟨_, hread⟩
        · cases h
      · cases h

/-- **The column does not touch the value.** Take any value with whole numbers only, pretty-printed from
any column on. It is read as from column zero, and it is read back exactly if none of its numbers has
more than 4300 digits, which JSON does not read. No number in nested JSON has, so nested JSON is always
read back. The lines are those from column zero, the first one as it is and all others with the spaces
of the column in front. -/
theorem format_keeps_value (hv : v.Everywhere IsExact) (column : Nat) :
    Markdown.Json.read? (format v column) = Markdown.Json.read? v.pretty ∧
    (Markdown.Json.read? (format v column) = some v ↔ v.Everywhere IsShort) ∧
    (∀ t, (read? t).value = some v → Markdown.Json.read? (format v column) = some v) ∧
    ∃ first rest, lines (format v 0) = first :: rest ∧
      lines (format v column) = first :: rest.map (List.replicate column ' ' ++ ·) := by
  have hzero : format v 0 = v.pretty := shifted_zero v.pretty
  have hback : Markdown.Json.read? (format v column) = some v ↔ v.Everywhere IsShort := by
    rw [read?_format hv, ← isSome_tokensOf?_iff hv]
    cases tokensOf? v <;> simp
  refine ⟨?_, hback, fun t ht => ?_, ?_⟩
  · rw [← hzero, read?_format hv, read?_format hv]
  · obtain ⟨s, hs⟩ := exists_read?_of_value ht
    exact hback.mpr (isShort_of_read? hs)
  · rw [hzero]
    exact lines_shifted column v.pretty

/-- Line feeds, quotes and backslashes in a name and in strings, empty containers and a negative number. -/
def letter : Markdown.Json :=
  .object [("to\n\"all\"".toList,
    .array [.integer (-10), .string "a\nb\\".toList, .object [], .array [], .null]),
    ("sent".toList, .bool true)]

theorem format_keeps_value_letter :
    letter.Everywhere IsExact ∧ Markdown.Json.read? (format letter 7) = some letter ∧
      (lines (format letter 7)).length = (lines (format letter 0)).length := by
  have hinside : letter.Everywhere fun x => IsExact x ∧ IsShort x := by
    have hleaf : ∀ {x : Markdown.Json}, IsExact x ∧ IsShort x → x.children = [] →
        x.Everywhere fun x => IsExact x ∧ IsShort x := fun h hnone =>
      everywhere_of_children_eq_nil h hnone
    have hnumber : (ofNat 10).length ≤ maxDigits := by decide
    have hnames : ["to\n\"all\"".toList, "sent".toList].Nodup := by decide
    refine ⟨⟨hnames, trivial⟩, List.forall_mem_cons.mpr ⟨⟨⟨trivial, trivial⟩, ?_⟩,
      List.forall_mem_singleton.mpr (hleaf ⟨trivial, trivial⟩ rfl)⟩⟩
    simp only [children, List.forall_mem_cons]
    exact ⟨hleaf ⟨trivial, hnumber⟩ rfl, hleaf ⟨trivial, trivial⟩ rfl, hleaf ⟨List.nodup_nil, trivial⟩ rfl,
      hleaf ⟨trivial, trivial⟩ rfl, hleaf ⟨trivial, trivial⟩ rfl, List.forall_mem_nil _⟩
  have hexact := hinside.imp fun _ h => h.1
  obtain ⟨-, hback, -, first, rest, hzero, hlines⟩ := format_keeps_value hexact 7
  refine ⟨hexact, hback.mpr (hinside.imp fun _ h => h.2), ?_⟩
  rw [hzero, hlines]
  simp

end Highlight.Nested

end Markdown
