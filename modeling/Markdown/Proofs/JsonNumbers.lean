import Markdown.Json.Reader
import Markdown.Proofs.Characters
import Markdown.Proofs.JsonLexemes
import Mathlib.Algebra.Group.Nat.Defs

/-!
# Numbers in values that have been read

The scanner takes no whole number with more than 4300 digits. The reader puts values together from
tokens and adds no number of its own: one step keeps what has been read free of longer ones
(`Json.isShort_advance`), so a run does, and no value that has been read holds one
(`Json.isShort_of_read?`).
-/

namespace Markdown

open Text

namespace Json

variable {v : Json} {t : Text} {c : Char}

/-! ### Values inside a value -/

/-- The values directly inside a value. -/
def children : Json → List Json
  | .array xs => xs
  | .object ms => ms.map Prod.snd
  | _ => []

/-- Something holds of a value and of all values inside it. -/
inductive Everywhere (p : Json → Prop) : Json → Prop where
  /-- It holds of the value, and everywhere in what is directly inside. -/
  | intro {v : Json} (here : p v) (inside : ∀ x ∈ v.children, Everywhere p x) : Everywhere p v

theorem everywhere_iff {p : Json → Prop} : v.Everywhere p ↔ p v ∧ ∀ x ∈ v.children, x.Everywhere p :=
  ⟨fun ⟨here, inside⟩ => ⟨here, inside⟩, fun ⟨here, inside⟩ => ⟨here, inside⟩⟩

theorem Everywhere.imp {p q : Json → Prop} (h : v.Everywhere p) (hpq : ∀ x, p x → q x) :
    v.Everywhere q := by
  induction h with
  | intro here _ ih => exact ⟨hpq _ here, ih⟩

theorem everywhere_of_children_eq_nil {p : Json → Prop} (here : p v) (hnone : v.children = []) :
    v.Everywhere p :=
  ⟨here, fun _ hx => absurd (hnone ▸ hx) List.not_mem_nil⟩

/-! ### Numbers -/

/-- A whole number does not have too many digits. -/
def IsShort : Json → Prop
  | .integer n => (ofNat n.natAbs).length ≤ maxDigits
  | _ => True

theorem digitValue_lt (c : Char) : (digitValue? c).getD 0 < 10 := by
  unfold digitValue?
  split
  · split
    · next h =>
      have hzero : '0'.toNat = 48 := rfl
      simp [isAsciiDigit, Char.le_def, UInt32.le_iff_toNat_le] at h
      rw [Option.getD_some]
      omega
    · decide
  · cases digitRanges.find? fun r => r.1 ≤ c.toNat && c.toNat ≤ r.2 with
    | none => exact Nat.succ_pos 9
    | some r => exact Nat.mod_lt _ (by decide)

/-- Each digit puts one zero more behind the bound. -/
theorem foldl_digits_lt {value size : Nat} (h : value < 10 ^ size) (t : Text) :
    t.foldl (fun n c => 10 * n + (digitValue? c).getD 0) value < 10 ^ (size + t.length) := by
  induction t generalizing value size with
  | nil => exact h
  | cons c t ih =>
    have hnext : 10 * value + (digitValue? c).getD 0 < 10 ^ (size + 1) := by
      have hc := digitValue_lt c
      rw [Nat.pow_succ]
      omega
    have hrest := ih hnext
    rwa [Nat.add_assoc, Nat.add_comm 1] at hrest

theorem digitsValue_lt (t : Text) : digitsValue t < 10 ^ t.length := by
  have hnone : 0 < 10 ^ 0 := by simp
  have hall := foldl_digits_lt hnone t
  rwa [Nat.zero_add] at hall

theorem everywhere_isShort_of_value? {n : Numeral} (h : n.value? = some v) : v.Everywhere IsShort := by
  unfold Numeral.value? at h
  split at h
  · split at h
    · cases h
    · next hlong =>
      obtain rfl := Option.some.inj h
      refine everywhere_of_children_eq_nil ?_ rfl
      have hvalue : (if n.negative then -(digitsValue n.whole : Int) else digitsValue n.whole).natAbs =
          digitsValue n.whole := by
        split <;> simp
      have hbound : digitsValue n.whole < 10 ^ maxDigits :=
        Nat.lt_of_lt_of_le (digitsValue_lt _) (Nat.pow_le_pow_right (by decide) (Nat.le_of_not_lt hlong))
      show (ofNat _).length ≤ maxDigits
      rw [hvalue, ofNat, Nat.length_toDigits_le_iff (by decide) (by decide)]
      exact hbound
  · obtain rfl := Option.some.inj h
    exact everywhere_of_children_eq_nil trivial rfl

/-! ### The reader -/

/-- A token without a number that is too long. -/
def Token.IsShort : Token → Prop
  | .scalar v => v.Everywhere Json.IsShort
  | _ => True

/-- A container without a number that is too long. -/
def Frame.IsShort : Frame → Prop
  | .array before => ∀ x ∈ before, x.Everywhere Json.IsShort
  | .object before _ => ∀ m ∈ before, m.2.Everywhere Json.IsShort

/-- The reader has met no number that is too long. -/
def Progress.IsShort : Progress → Prop
  | .value stack => ∀ f ∈ stack, f.IsShort
  | .firstItem stack => ∀ f ∈ stack, f.IsShort
  | .firstKey stack => ∀ f ∈ stack, f.IsShort
  | .key before stack => (∀ m ∈ before, m.2.Everywhere Json.IsShort) ∧ ∀ f ∈ stack, f.IsShort
  | .colon before _ stack => (∀ m ∈ before, m.2.Everywhere Json.IsShort) ∧ ∀ f ∈ stack, f.IsShort
  | .after v stack => v.Everywhere Json.IsShort ∧ ∀ f ∈ stack, f.IsShort

theorem isShort_lexStep {r : Text} {k : Token} (h : (lexStep () c r).label = .token k) : k.IsShort := by
  unfold lexStep at h
  split at h
  · cases h
  split at h
  · cases h
    trivial
  split at h
  · split at h
    · cases h
    · split at h <;> cases h
      trivial
  split at h
  · next k hk =>
    cases h
    have hmem := List.mem_of_find?_eq_some hk
    simp only [keywords, List.mem_cons, List.not_mem_nil, or_false] at hmem
    rcases hmem with rfl | rfl | rfl | rfl | rfl | rfl
    all_goals exact everywhere_of_children_eq_nil trivial rfl
  split at h
  · cases h
  · split at h <;> cases h
    next hvalue => exact everywhere_isShort_of_value? hvalue

theorem isShort_of_lex {ts : List Token} (h : lex t = some ts) : ∀ k ∈ ts, k.IsShort := by
  obtain ⟨-, -, rfl⟩ := areSpelled_of_lex h
  intro k hk
  obtain ⟨p, hp, hlabel⟩ := List.mem_filterMap.mp hk
  obtain ⟨⟨⟩, c, r, rfl⟩ := exists_step_of_mem_segment lexStep hp
  dsimp only at hlabel
  split at hlabel
  · next hstep =>
    obtain rfl := Option.some.inj hlabel
    exact isShort_lexStep hstep
  · cases hlabel

variable {p q : Progress} {k : Token}

theorem forall_mem_putMember {P : Json → Prop} {ms : List (Text × Json)} (hms : ∀ m ∈ ms, P m.2)
    (key : Text) (hv : P v) : ∀ m ∈ putMember ms key v, P m.2 := by
  induction ms with
  | nil => exact List.forall_mem_singleton.mpr hv
  | cons m ms ih =>
    obtain ⟨hm, hms⟩ := List.forall_mem_cons.mp hms
    rw [putMember]
    split
    · exact List.forall_mem_cons.mpr ⟨hv, hms⟩
    · exact List.forall_mem_cons.mpr ⟨hm, ih hms⟩

theorem everywhere_ofMembers {ms : List (Text × Json)} (hms : ∀ m ∈ ms, m.2.Everywhere IsShort) :
    (ofMembers ms).Everywhere IsShort := by
  have hfold : ∀ before : List (Text × Json), (∀ m ∈ before, m.2.Everywhere IsShort) →
      ∀ m ∈ ms.foldl (fun acc m => putMember acc m.1 m.2) before, m.2.Everywhere IsShort := by
    induction ms with
    | nil => exact fun _ h => h
    | cons m ms ih =>
      obtain ⟨hm, hms⟩ := List.forall_mem_cons.mp hms
      exact fun before hbefore => ih hms _ (forall_mem_putMember hbefore m.1 hm)
  exact ⟨trivial, List.forall_mem_map.mpr (hfold [] (List.forall_mem_nil _))⟩

theorem isShort_startValue {stack : List Frame} (hstack : ∀ f ∈ stack, f.IsShort) (hk : k.IsShort)
    (h : startValue stack k = some q) : q.IsShort := by
  unfold startValue at h
  split at h <;> cases h
  · exact hstack
  · exact hstack
  · exact ⟨everywhere_of_children_eq_nil trivial rfl, hstack⟩
  · exact ⟨hk, hstack⟩

theorem isShort_continueWith {stack : List Frame} (hstack : ∀ f ∈ stack, f.IsShort)
    (hv : v.Everywhere IsShort) (h : continueWith v stack k = some q) : q.IsShort := by
  unfold continueWith at h
  split at h
  · next before stack =>
    obtain ⟨hbefore, hstack⟩ := List.forall_mem_cons.mp hstack
    cases h
    exact List.forall_mem_cons.mpr ⟨List.forall_mem_cons.mpr ⟨hv, hbefore⟩, hstack⟩
  · next before stack =>
    obtain ⟨hbefore, hstack⟩ := List.forall_mem_cons.mp hstack
    have hitems : ∀ x ∈ v :: before, x.Everywhere IsShort := List.forall_mem_cons.mpr ⟨hv, hbefore⟩
    cases h
    exact ⟨⟨trivial, fun x hx => hitems x (List.mem_reverse.mp hx)⟩, hstack⟩
  · next before key stack =>
    obtain ⟨hbefore, hstack⟩ := List.forall_mem_cons.mp hstack
    have hmembers : ∀ m ∈ (key, v) :: before, m.2.Everywhere IsShort :=
      List.forall_mem_cons.mpr ⟨hv, hbefore⟩
    cases h
    exact ⟨hmembers, hstack⟩
  · next before key stack =>
    obtain ⟨hbefore, hstack⟩ := List.forall_mem_cons.mp hstack
    have hmembers : ∀ m ∈ (key, v) :: before, m.2.Everywhere IsShort :=
      List.forall_mem_cons.mpr ⟨hv, hbefore⟩
    cases h
    exact ⟨everywhere_ofMembers fun m hm => hmembers m (List.mem_reverse.mp hm), hstack⟩
  · cases h

/-- One step of the reader adds no number that is too long. -/
theorem isShort_advance (hp : p.IsShort) (hk : k.IsShort) (h : advance p k = some q) : q.IsShort := by
  have hnil : Frame.IsShort (.array []) := List.forall_mem_nil _
  unfold advance at h
  split at h
  · exact isShort_startValue hp hk h
  · cases h
    exact ⟨everywhere_of_children_eq_nil trivial rfl, hp⟩
  · exact isShort_startValue (List.forall_mem_cons.mpr ⟨hnil, hp⟩) hk h
  · cases h
    exact ⟨everywhere_of_children_eq_nil trivial rfl, hp⟩
  · cases h
    exact ⟨List.forall_mem_nil _, hp⟩
  · cases h
    exact hp
  · cases h
    exact List.forall_mem_cons.mpr hp
  · exact isShort_continueWith hp.2 hp.1 h
  · cases h

theorem isShort_foldlM {ts : List Token} (hp : p.IsShort) (hts : ∀ k ∈ ts, k.IsShort)
    (h : ts.foldlM advance p = some q) : q.IsShort := by
  induction ts generalizing p with
  | nil =>
    obtain rfl : p = q := Option.some.inj h
    exact hp
  | cons k ts ih =>
    obtain ⟨hk, hts⟩ := List.forall_mem_cons.mp hts
    obtain ⟨p', hstep, hrest⟩ := Option.bind_eq_some_iff.mp h
    exact ih (isShort_advance hp hk hstep) hts hrest

/-- A value that has been read holds no number that is too long. -/
theorem isShort_of_read? (h : read? t = some v) : v.Everywhere IsShort := by
  obtain ⟨ts, hlex, hvalue⟩ := Option.bind_eq_some_iff.mp h
  unfold ofTokens? at hvalue
  split at hvalue
  · next hrun =>
    obtain rfl := Option.some.inj hvalue
    have hstart : Progress.IsShort (.value []) := List.forall_mem_nil _
    exact (isShort_foldlM hstart (isShort_of_lex hlex) hrun).1
  · cases hvalue

end Json

end Markdown
