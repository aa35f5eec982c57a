import Markdown.Block.Data
import Markdown.Proofs.JsonLexemes
import Markdown.Proofs.Lines
import Mathlib.Algebra.Ring.Int.Defs

/-!
# JSON without a fence is found as a whole

The detection counts the brackets of a line outside strings, character by character. Behind any line
of a JSON text the count is the number of containers that the reader of JSON has open: one token
changes both alike (`Json.reaches_advance`), so a run does (`Json.depth_foldlM`,
`Data.afterLine_of_areSpelled`). It is positive up to the last line and zero behind it. Therefore the
lines of a JSON text without blank lines are found as one block, whatever stands in its strings and
whatever follows (`Data.recogniseJson_of_read`).
-/

namespace Markdown

open Text

namespace Json

/-! ### Open containers -/

/-- By how much a token changes the number of open containers. -/
def Token.change : Token → Int
  | .mark '\x7b' => 1
  | .mark '[' => 1
  | .mark '\x7d' => -1
  | .mark ']' => -1
  | _ => 0

/-- How many containers the reader has open. -/
def Progress.depth : Progress → Nat
  | .value stack => stack.length
  | .firstItem stack => stack.length + 1
  | .firstKey stack => stack.length + 1
  | .key _ stack => stack.length + 1
  | .colon _ _ stack => stack.length + 1
  | .after _ stack => stack.length

variable {p q : Progress} {t : Token} {ts : List Token}

/-- The reader has `depth` containers open behind a token, and if there are none the value is
complete. -/
structure Progress.Reaches (depth : Int) (q : Progress) : Prop where
  /-- The number of open containers. -/
  depth_eq : q.depth = depth
  /-- The reader has containers open, or the value is complete. -/
  opened : 0 < q.depth ∨ ∃ v, q = .after v []

theorem Progress.reaches_after (v : Json) (stack : List Frame) :
    (Progress.after v stack).Reaches stack.length := by
  refine ⟨rfl, ?_⟩
  cases stack with
  | nil => exact .inr ⟨v, rfl⟩
  | cons frame stack => exact .inl (Nat.succ_pos _)

/-- A mark that closes a container. -/
theorem Progress.reaches_close (v : Json) (stack : List Frame) :
    (Progress.after v stack).Reaches ((stack.length + 1 : Nat) + -1) := by
  rw [Int.natCast_succ, Int.add_neg_cancel_right]
  exact Progress.reaches_after v stack

theorem reaches_startValue {stack : List Frame} (h : startValue stack t = some q) :
    q.Reaches (stack.length + t.change) := by
  unfold startValue at h
  split at h <;> cases h
  · exact ⟨rfl, .inl (Nat.succ_pos _)⟩
  · exact ⟨rfl, .inl (Nat.succ_pos _)⟩
  · exact Progress.reaches_after _ _
  · exact Progress.reaches_after _ _

theorem reaches_continueWith {v : Json} {stack : List Frame} (h : continueWith v stack t = some q) :
    q.Reaches (stack.length + t.change) := by
  unfold continueWith at h
  split at h <;> cases h
  · exact ⟨rfl, .inl (Nat.succ_pos _)⟩
  · exact Progress.reaches_close _ _
  · exact ⟨rfl, .inl (Nat.succ_pos _)⟩
  · exact Progress.reaches_close _ _

/-- Each step of the reader opens or closes as many containers as its token says. -/
theorem reaches_advance (h : advance p t = some q) : q.Reaches (p.depth + t.change) := by
  unfold advance at h
  split at h
  · exact reaches_startValue h
  · cases h
    exact Progress.reaches_close _ _
  · exact reaches_startValue h
  · cases h
    exact Progress.reaches_close _ _
  · cases h
    exact ⟨rfl, .inl (Nat.succ_pos _)⟩
  · cases h
    exact ⟨rfl, .inl (Nat.succ_pos _)⟩
  · cases h
    exact ⟨rfl, .inl (Nat.succ_pos _)⟩
  · exact reaches_continueWith h
  · cases h

/-- What a run of the reader opens and closes. -/
theorem depth_foldlM (h : ts.foldlM advance p = some q) :
    (q.depth : Int) = p.depth + (ts.map Token.change).sum := by
  induction ts generalizing p with
  | nil =>
    obtain rfl : p = q := Option.some.inj h
    simp
  | cons t ts ih =>
    rw [List.foldlM_cons] at h
    obtain ⟨p', hp', hq⟩ := Option.bind_eq_some_iff.mp h
    rw [ih hq, (reaches_advance hp').depth_eq, List.map_cons, List.sum_cons]
    omega

/-- If a token follows, the reader has a container open. -/
theorem depth_pos_of_foldlM {us : List Token} (hts : ts ≠ []) (hus : us ≠ [])
    (h : ts.foldlM advance p = some q) {o : Progress} (hrest : us.foldlM advance q = some o) :
    0 < q.depth := by
  obtain ⟨init, t, rfl⟩ := (List.eq_nil_or_concat' ts).resolve_left hts
  obtain ⟨u, us, rfl⟩ := List.exists_cons_of_ne_nil hus
  rw [List.foldlM_append] at h
  obtain ⟨p', -, hlast⟩ := Option.bind_eq_some_iff.mp h
  obtain ⟨q', hstep, heq⟩ := Option.bind_eq_some_iff.mp hlast
  obtain rfl : q' = q := Option.some.inj heq
  refine (reaches_advance hstep).opened.resolve_right ?_
  rintro ⟨v, rfl⟩
  cases hrest

end Json

namespace Data

open Json (Spells AreSpelled tokens Token Progress)

/-! ### Counting brackets -/

/-- A character that is no quote and no bracket. -/
def isSilent (c : Char) : Bool :=
  c ≠ '"' && c ≠ '\x7b' && c ≠ '[' && c ≠ '\x7d' && c ≠ ']'

theorem step_of_isSilent {c : Char} (hc : isSilent c = true) (depth : Int) :
    Brackets.step ⟨depth, false, false⟩ c = ⟨depth, false, false⟩ := by
  simp only [isSilent, Bool.and_eq_true, decide_eq_true_eq] at hc
  obtain ⟨⟨⟨⟨hquote, hbrace⟩, hbracket⟩, hbraceEnd⟩, hbracketEnd⟩ := hc
  simp [Brackets.step, hquote, hbrace, hbracket, hbraceEnd, hbracketEnd]

theorem isSilent_of_isScalarChar {c : Char} (hc : Json.isScalarChar c = true) :
    isSilent c = true := by
  simp only [isSilent, Bool.and_eq_true, decide_eq_true_eq]
  exact ⟨⟨⟨⟨ne_of_class hc rfl, ne_of_class hc rfl⟩, ne_of_class hc rfl⟩, ne_of_class hc rfl⟩,
    ne_of_class hc rfl⟩

/-- Such characters leave the count. -/
theorem foldl_step_of_isSilent {t : Text} (h : ∀ c ∈ t, isSilent c = true) (depth : Int) :
    t.foldl Brackets.step ⟨depth, false, false⟩ = ⟨depth, false, false⟩ := by
  induction t with
  | nil => rfl
  | cons c t ih =>
    obtain ⟨hc, ht⟩ := List.forall_mem_cons.mp h
    rw [List.foldl_cons, step_of_isSilent hc, ih ht]

/-- Inside a string nothing counts. -/
theorem foldl_step_of_isBody {body : Text} (h : Json.IsBody body) (depth : Int) :
    body.foldl Brackets.step ⟨depth, true, false⟩ = ⟨depth, true, false⟩ := by
  induction h with
  | nil => rfl
  | escape c h ih => exact ih
  | plain hc h ih => simpa [Brackets.step, hc] using ih

/-- A segment changes the count as its token says, and no string is open behind it. -/
theorem foldl_step_of_spells {x : Json.Lexeme} {t : Text} (h : Spells x t) (depth : Int) :
    t.foldl Brackets.step ⟨depth, false, false⟩ =
      ⟨depth + (match x with | .token t => t.change | _ => 0), false, false⟩ := by
  cases h with
  | @blank c hc =>
    have hsilent : isSilent c = true := by
      simp only [Json.isBlank, Bool.or_eq_true, beq_iff_eq] at hc
      rcases hc with ((rfl | rfl) | rfl) | rfl <;> rfl
    rw [foldl_step_of_isSilent (List.forall_mem_singleton.mpr hsilent)]
    simp
  | @mark c hc =>
    simp only [Json.isMark, Bool.or_eq_true, beq_iff_eq] at hc
    rcases hc with ((((rfl | rfl) | rfl) | rfl) | rfl) | rfl <;>
      simp [Brackets.step, Token.change, Int.sub_eq_add_neg]
  | @string body value hbody hline =>
    have hopen : Brackets.step ⟨depth, false, false⟩ '"' = ⟨depth, true, false⟩ := rfl
    rw [List.foldl_cons, List.foldl_append, hopen, foldl_step_of_isBody hbody]
    simp [Brackets.step, Token.change]
  | scalar hchars =>
    have hsilent : ∀ c ∈ t, isSilent c = true := fun c hc => isSilent_of_isScalarChar (hchars c hc)
    rw [foldl_step_of_isSilent hsilent]
    simp [Token.change]

/-- So do segments one behind the other. -/
theorem afterLine_of_areSpelled {ps : List (Segment Json.Lexeme)} (h : AreSpelled ps) (depth : Int) :
    afterLine depth false (ps.flatMap Segment.text) =
      ⟨depth + ((tokens ps).map Token.change).sum, false, false⟩ := by
  rw [afterLine]
  induction ps generalizing depth with
  | nil => simp [tokens]
  | cons p ps ih =>
    obtain ⟨hp, hps⟩ := List.forall_mem_cons.mp h
    rw [List.flatMap_cons, List.foldl_append, foldl_step_of_spells hp, ih hps]
    obtain ⟨label, text⟩ := p
    cases label <;> simp [tokens, Int.add_assoc]

/-! ### The lines of a JSON text -/

theorem tokens_append (ps qs : List (Segment Json.Lexeme)) :
    tokens (ps ++ qs) = tokens ps ++ tokens qs :=
  List.filterMap_append

/-- The brackets of what the reader has left are balanced behind the last line and not before. -/
theorem balancedLines_of_foldlM {ls : List Text} (hne : ls ≠ [])
    (hlines : ∀ l ∈ ls, allBlank l = false ∧ '\n' ∉ l) (more : List Text) {p : Progress} {v : Json}
    {ps : List (Segment Json.Lexeme)} (hps : AreSpelled ps)
    (htext : ps.flatMap Segment.text = unlines ls)
    (hread : (tokens ps).foldlM Json.advance p = some (.after v [])) :
    balancedLines p.depth false (ls ++ more) = some ls.length := by
  induction ls generalizing p ps with
  | nil => exact absurd rfl hne
  | cons l ls ih =>
    obtain ⟨⟨hvisible, hline⟩, hrest⟩ := List.forall_mem_cons.mp hlines
    rw [List.cons_append, balancedLines, hvisible, Bool.false_and, if_neg Bool.false_ne_true]
    by_cases hls : ls = []
    · subst hls
      rw [unlines, List.intercalate_singleton] at htext
      have hcount := afterLine_of_areSpelled hps p.depth
      rw [htext, ← Json.depth_foldlM hread] at hcount
      rw [hcount]
      rfl
    · rw [unlines_cons l hls] at htext
      obtain ⟨front, back, rfl, hfront, hback⟩ := hps.exists_split htext hline
      obtain ⟨hpsFront, hpsBack⟩ := List.forall_mem_append.mp hps
      have hpsBack := (List.forall_mem_cons.mp hpsBack).2
      have hnewline : tokens (⟨.blank, ['\n']⟩ :: back) = tokens back := rfl
      rw [tokens_append, hnewline, List.foldlM_append] at hread
      obtain ⟨q, hq, hreadBack⟩ := Option.bind_eq_some_iff.mp hread
      have hvisibleBack : allBlank (back.flatMap Segment.text) = false := by
        obtain ⟨k, ks, rfl⟩ := List.exists_cons_of_ne_nil hls
        have hsplit : Text.lines (unlines (k :: ks)) = k :: ks :=
          lines_unlines hls fun l hl => (hrest l hl).2
        rw [hback, Bool.eq_false_iff]
        intro hblank
        have hfirst := allBlank_of_mem_lines hblank (hsplit ▸ List.mem_cons_self)
        rw [(hrest k List.mem_cons_self).1] at hfirst
        cases hfirst
      have hdepth : 0 < q.depth :=
        Json.depth_pos_of_foldlM (AreSpelled.tokens_ne_nil hpsFront (hfront ▸ hvisible))
          (AreSpelled.tokens_ne_nil hpsBack hvisibleBack) hq hreadBack
      have hcount := afterLine_of_areSpelled hpsFront p.depth
      rw [hfront, ← Json.depth_foldlM hq] at hcount
      have hopen : ¬ (q.depth : Int) ≤ 0 := by omega
      rw [hcount]
      dsimp only
      rw [if_neg hopen, ih hls hrest hpsBack hback hreadBack]
      rfl

/-- **JSON is found as a whole.** If a text holds a JSON value, none of its lines is blank, and its
first line begins with a bracket, then its lines are found as a block of JSON with this text, whatever
lines follow. -/
theorem recogniseJson_of_read {text first : Text} {rest : List Text} {v : Json}
    (hread : Json.read? text = some v) (hlines : Text.lines text = first :: rest)
    (hvisible : ∀ l ∈ first :: rest, allBlank l = false)
    (hstart : ∃ c ∈ (trimStart first).head?, c = '\x7b' ∨ c = '[') (number : Nat)
    (more : List Text) :
    recogniseJson number first (rest ++ more) =
      some ⟨.code "json".toList text true, rest.length,
        [.logged (.detected .json number (rest.length + 1))]⟩ := by
  have hclean : ∀ l ∈ first :: rest, '\n' ∉ l := fun l hl => by
    rw [← hlines] at hl
    exact separator_notMem_of_mem_splitOn hl
  have htext : unlines (first :: rest) = text := by rw [← hlines, unlines_lines]
  obtain ⟨ts, hts, hvalue⟩ := Option.bind_eq_some_iff.mp hread
  obtain ⟨hspelled, hsegments, rfl⟩ := Json.areSpelled_of_lex hts
  have hfold : (tokens (Json.lexemes text)).foldlM Json.advance (.value []) = some (.after v []) := by
    unfold Json.ofTokens? at hvalue
    split at hvalue
    · next heq =>
      cases hvalue
      exact heq
    · cases hvalue
  have hbalanced : balancedLines 0 false (first :: (rest ++ more)) = some (rest.length + 1) :=
    balancedLines_of_foldlM (List.cons_ne_nil first rest)
      (fun l hl => ⟨hvisible l hl, hclean l hl⟩) more hspelled (hsegments.trans htext.symm) hfold
  have htake : (rest ++ more).take rest.length = rest := List.take_left' rfl
  obtain ⟨c, hc, hbracket⟩ := hstart
  obtain ⟨r, hr⟩ := List.head?_eq_some_iff.mp hc
  have hopens : (c == '\x7b' || c == '[') = true := by
    rw [Bool.or_eq_true, beq_iff_eq, beq_iff_eq]
    exact hbracket
  simp only [recogniseJson, hr, hopens, if_true, hbalanced, Nat.add_sub_cancel, htake, htext, hread]

/-- The first line of an object, with brackets, quotes and backslashes in its strings. -/
def trickyFirst : Text :=
  "\x7b\"a]\": [\"\\\\\", \"\x7d\\\"\x7b\",".toList

/-- The other lines of the object. -/
def trickyRest : List Text :=
  ["  [1]],".toList, " \"b\": \x7b\x7d\x7d".toList]

theorem recogniseJson_of_read_tricky :
    (∃ v, Json.read? (unlines (trickyFirst :: trickyRest)) = some v) ∧
      recogniseJson 0 trickyFirst (trickyRest ++ ["]".toList, []]) =
        some ⟨.code "json".toList (unlines (trickyFirst :: trickyRest)) true, 2,
          [.logged (.detected .json 0 3)]⟩ := by
  have hsome : (Json.read? (unlines (trickyFirst :: trickyRest))).isSome = true := by decide +kernel
  obtain ⟨v, hread⟩ := Option.isSome_iff_exists.mp hsome
  have hlines : Text.lines (unlines (trickyFirst :: trickyRest)) = trickyFirst :: trickyRest :=
    lines_unlines (List.cons_ne_nil _ _) (by decide)
  exact ⟨⟨v, hread⟩, recogniseJson_of_read hread hlines (by decide) ⟨'\x7b', rfl, .inl rfl⟩ 0
    ["]".toList, []]⟩

end Data

end Markdown
