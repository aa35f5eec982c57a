import Markdown.Inline.Span
import Markdown.Proofs.Search

/-!
# What the inline rules take

For each rule of the inline text, one lemma says what stands at a hit and what is written instead.
The later developments use the rules through these lemmas only.
-/

namespace Markdown.Inline

open Text

/-! ### Paired marks -/

theorem longSpan_eq_some {mark : Text} {words : Bool} {wrap : Text → Text} {before : Option Char}
    {c : Char} {r : Text} {hit : Hit} (hmark : mark ≠ [])
    (h : longSpan mark words wrap before c r = some hit) :
    ∃ inner rest, hit.Takes c r (mark ++ (inner ++ mark)) rest ∧ hit.text = wrap inner ∧
      inner ≠ [] ∧ ∀ d ∈ inner, inLine d = true := by
  unfold longSpan at h
  split at h
  · cases h
  · split at h
    · cases h
    · next inner hinner =>
      obtain ⟨n, hn, rfl⟩ := Option.map_eq_some_iff.mp h
      obtain ⟨hpos, hle, hall, hcloses⟩ := shortest?_eq_some hn
      rw [after?_eq_some_iff] at hinner
      split at hcloses
      · next rest hrest =>
        rw [after?_eq_some_iff] at hrest
        have hsplit : inner.take n ++ (mark ++ rest) = inner := by
          rw [← hrest, List.take_append_drop]
        have hlen : (inner.take n).length = n := List.length_take_of_le hle
        refine ⟨inner.take n, rest, Hit.takes_of_length ?_ ?_, rfl, ?_, hall⟩
        · rw [List.append_assoc, List.append_assoc, hsplit, hinner]
        · have := List.length_pos_iff.mpr hmark
          simp only [List.length_append, hlen]
          omega
        · exact List.ne_nil_of_length_pos (by omega)
      · cases hcloses

theorem shortSpan_eq_some {s : SpanStyle} {wrap : Text → Text} {before : Option Char} {c : Char}
    {r : Text} {hit : Hit} (h : shortSpan s wrap before c r = some hit) :
    ∃ inner rest, hit.Takes c r (s.mark :: (inner ++ [s.mark])) rest ∧ hit.text = wrap inner ∧
      inner ≠ [] ∧ ∀ d ∈ inner, d ≠ s.mark ∧ s.inner d = true := by
  unfold shortSpan at h
  split at h
  · next hc =>
    obtain rfl : c = s.mark := by
      simp only [Bool.and_eq_true, decide_eq_true_eq] at hc
      exact hc.1
    dsimp only at h
    split at h
    · next a z m rest hhead _ hdrop =>
      split at h
      · next hm =>
        obtain rfl : m = s.mark := by
          simp only [Bool.and_eq_true, decide_eq_true_eq] at hm
          exact hm.1.1.1
        obtain rfl := Option.some.inj h
        refine ⟨r.takeWhile fun c => c ≠ s.mark && s.inner c, rest,
          Hit.takes_of_length ?_ ?_, rfl, ?_, ?_⟩
        · have hsplit := takeWhile_append_drop (fun c => c ≠ s.mark && s.inner c) r
          rw [hdrop] at hsplit
          rw [List.cons_append, List.append_assoc, List.singleton_append, hsplit]
        · simp
        · rintro hnil
          rw [hnil] at hhead
          cases hhead
        · intro d hd
          simpa using of_mem_takeWhile hd
      · cases h
    · cases h
  · cases h

theorem element_inj {name : String} {a b : Text} : element name a = element name b ↔ a = b := by
  refine ⟨fun h => ?_, fun h => h ▸ rfl⟩
  simpa [element] using h

/-! ### Links and images -/

/-- A quote mark, plain or written for HTML. -/
def IsQuoteMark (q : Text) : Prop :=
  q = "&quot;".toList ∨ q = ['"']

theorem afterQuote?_eq_some {t r : Text} (h : afterQuote? t = some r) :
    ∃ q, IsQuoteMark q ∧ t = q ++ r := by
  unfold afterQuote? at h
  split at h
  · next r' hr =>
    obtain rfl := Option.some.inj h
    exact ⟨_, .inl rfl, after?_eq_some_iff.mp hr⟩
  · exact ⟨_, .inr rfl, after?_eq_some_iff.mp h⟩

theorem titleBody?_eq_some {t title rest : Text} (h : titleBody? t = some (title, rest)) :
    ∃ q, IsQuoteMark q ∧ t = title ++ (q ++ ')' :: rest) ∧ '\n' ∉ title := by
  induction t generalizing title with
  | nil => cases h
  | cons c r ih =>
    rw [titleBody?] at h
    split at h
    · next r' hr =>
      obtain ⟨rfl, rfl⟩ := Prod.mk.inj (Option.some.inj h)
      unfold afterTitle? at hr
      split at hr
      · next r'' hr'' =>
        obtain rfl := Option.some.inj hr
        obtain ⟨q, hq, heq⟩ := afterQuote?_eq_some hr''
        exact ⟨q, hq, heq, List.not_mem_nil⟩
      · cases hr
    · split at h
      · cases h
      · next hc =>
        obtain ⟨⟨title', rest'⟩, hp, heq⟩ := Option.map_eq_some_iff.mp h
        obtain ⟨rfl, rfl⟩ := Prod.mk.inj heq
        obtain ⟨q, hq, ht, hline⟩ := ih hp
        exact ⟨q, hq, by rw [ht, List.cons_append], List.not_mem_cons_of_ne_of_not_mem (Ne.symm hc) hline⟩

/-- What may stand between the address of a target and what follows the target: a parenthesis, or
blanks, the title between quote marks, and the parenthesis. -/
inductive Target.Closing : Option Text → Text → Prop
  /-- A target without title. -/
  | bare : Closing none [')']
  /-- A target with a title. -/
  | titled {blank : Char} {blanks q title q' : Text} : isBlank blank = true →
      (∀ d ∈ blanks, isBlank d = true) → IsQuoteMark q → IsQuoteMark q' →
      Closing (some title) (blank :: (blanks ++ (q ++ (title ++ (q' ++ [')'])))))

theorem target?_eq_some {t : Text} {target : Target} (h : target? t = some target) :
    ∃ closing, t = target.url ++ (closing ++ target.rest) ∧ Target.Closing target.title closing ∧
      target.url ≠ [] ∧ ∀ d ∈ target.url, d ≠ ')' ∧ isBlank d = false := by
  unfold target? at h
  dsimp only at h
  split at h
  · cases h
  · next hurl =>
    have hne : (t.takeWhile fun c => c ≠ ')' && !isBlank c) ≠ [] := by simpa using hurl
    have hmem : ∀ d ∈ t.takeWhile (fun c => c ≠ ')' && !isBlank c), d ≠ ')' ∧ isBlank d = false :=
      fun d hd => by simpa using of_mem_takeWhile hd
    have hsplit := takeWhile_append_drop (fun c => c ≠ ')' && !isBlank c) t
    split at h
    · next rest hrest =>
      obtain rfl := Option.some.inj h
      rw [hrest] at hsplit
      exact ⟨_, hsplit.symm, .bare, hne, hmem⟩
    · next c r _ hr =>
      split at h
      · next hc =>
        split at h
        · cases h
        · next body hbody =>
          obtain ⟨⟨title, rest⟩, hp, rfl⟩ := Option.map_eq_some_iff.mp h
          obtain ⟨q, hq, hqeq⟩ := afterQuote?_eq_some hbody
          obtain ⟨q', hq', hq'eq, -⟩ := titleBody?_eq_some hp
          have hblanks : r.takeWhile isBlank ++ trimStart r = r := List.takeWhile_append_dropWhile
          rw [hqeq, hq'eq] at hblanks
          rw [hr, ← hblanks] at hsplit
          have hall : ∀ d ∈ r.takeWhile isBlank, isBlank d = true := fun d hd => of_mem_takeWhile hd
          refine ⟨_, hsplit.symm.trans ?_, .titled hc hall hq hq', hne, hmem⟩
          simp only [List.append_assoc, List.cons_append, List.nil_append]
      · cases h
    · cases h

theorem hitUpTo_takes {c : Char} {r old rest replacement : Text} (hold : old ≠ [])
    (h : c :: r = old ++ rest) : (hitUpTo r rest replacement).Takes c r old rest := by
  refine Hit.takes_of_length h ?_
  have hlen := congrArg List.length h
  have hpos := List.length_pos_iff.mpr hold
  simp only [List.length_cons, List.length_append] at hlen
  simp only [hitUpTo]
  omega

theorem bracketed?_eq_some {t label rest : Text} (h : bracketed? t = some (label, rest)) :
    t = label ++ ']' :: rest ∧ ']' ∉ label :=
  cutAt?_eq_some h

theorem imageRule_eq_some {before : Option Char} {c : Char} {r : Text} {hit : Hit}
    (h : imageRule before c r = some hit) :
    ∃ alt closing, ∃ t : Target, Target.Closing t.title closing ∧
      hit.Takes c r ('!' :: '[' :: (alt ++ ']' :: '(' :: (t.url ++ closing))) t.rest ∧
      hit.text = image t.url alt t.title ∧ ']' ∉ alt ∧ t.url ≠ [] ∧
      ∀ d ∈ t.url, d ≠ ')' ∧ isBlank d = false := by
  unfold imageRule at h
  split at h
  · next body =>
    split at h
    · next alt rest hb =>
      obtain ⟨t, ht, rfl⟩ := Option.map_eq_some_iff.mp h
      obtain ⟨rfl, halt⟩ := bracketed?_eq_some hb
      obtain ⟨closing, rfl, hclosing, hurl, hmem⟩ := target?_eq_some ht
      refine ⟨alt, closing, t, hclosing, hitUpTo_takes (by simp) ?_, rfl, halt, hurl, hmem⟩
      simp
    · cases h
  · cases h

theorem linkRule_eq_some {before : Option Char} {c : Char} {r : Text} {hit : Hit}
    (h : linkRule before c r = some hit) :
    ∃ label closing, ∃ t : Target, Target.Closing t.title closing ∧
      hit.Takes c r ('[' :: (label ++ ']' :: '(' :: (t.url ++ closing))) t.rest ∧
      hit.text = anchor t.url t.title label ∧ ']' ∉ label ∧ label ≠ [] ∧ t.url ≠ [] ∧
      ∀ d ∈ t.url, d ≠ ')' ∧ isBlank d = false := by
  unfold linkRule at h
  split at h
  · next hc =>
    subst hc
    split at h
    · next label rest hb =>
      split at h
      · cases h
      · next hlabel =>
        obtain ⟨t, ht, rfl⟩ := Option.map_eq_some_iff.mp h
        obtain ⟨rfl, hmem⟩ := bracketed?_eq_some hb
        obtain ⟨closing, rfl, hclosing, hurl, hall⟩ := target?_eq_some ht
        refine ⟨label, closing, t, hclosing, hitUpTo_takes (by simp) ?_, rfl, hmem,
          by simpa using hlabel, hurl, hall⟩
        simp
    · cases h
  · cases h

/-! ### References -/

theorem fullReferenceRule_eq_some {s : References} {sanitize : Bool} {before : Option Char}
    {c : Char} {r : Text} {hit : Hit} (h : fullReferenceRule s sanitize before c r = some hit) :
    ∃ label id rest, hit.Takes c r ('[' :: (label ++ ']' :: '[' :: (id ++ [']']))) rest ∧
      hit.text = resolve s sanitize (if id.isEmpty then label else id) label
        ('[' :: (label ++ ']' :: '[' :: (id ++ [']']))) ∧
      ']' ∉ label ∧ ']' ∉ id ∧ label ≠ [] := by
  unfold fullReferenceRule at h
  split at h
  · next hc =>
    subst hc
    split at h
    · next label rest hb =>
      split at h
      · cases h
      · next hlabel =>
        obtain ⟨⟨id, rest'⟩, hid, rfl⟩ := Option.map_eq_some_iff.mp h
        obtain ⟨rfl, hmem⟩ := bracketed?_eq_some hb
        obtain ⟨rfl, hmem'⟩ := bracketed?_eq_some hid
        have hwhole : '[' :: (label ++ ']' :: '[' :: (id ++ ']' :: rest')) =
            ('[' :: (label ++ ']' :: '[' :: (id ++ [']']))) ++ rest' := by simp
        refine ⟨label, id, rest', hitUpTo_takes (by simp) hwhole, ?_, hmem, hmem',
          by simpa using hlabel⟩
        have hlen : (label ++ ']' :: '[' :: (id ++ ']' :: rest')).length - rest'.length =
            (label ++ ']' :: '[' :: (id ++ [']'])).length := by
          simp only [List.length_append, List.length_cons, List.length_nil]
          omega
        have htake : (label ++ ']' :: '[' :: (id ++ [']']) ++ rest').take
            (label ++ ']' :: '[' :: (id ++ [']'])).length = label ++ ']' :: '[' :: (id ++ [']']) :=
          List.take_left
        rw [List.append_assoc] at htake
        simp only [List.cons_append, List.append_assoc, List.nil_append] at htake
        simp only [hitUpTo, hlen, htake]
    · cases h
  · cases h

theorem shortcutRule_eq_some {s : References} {sanitize : Bool} {before : Option Char} {c : Char}
    {r : Text} {hit : Hit} (h : shortcutRule s sanitize before c r = some hit) :
    ∃ label rest, hit.Takes c r ('[' :: (label ++ [']'])) rest ∧
      hit.text = resolve s sanitize label label ('[' :: (label ++ [']'])) ∧
      ']' ∉ label ∧ label ≠ [] := by
  unfold shortcutRule at h
  split at h
  · next hc =>
    obtain rfl : c = '[' := by
      simp only [Bool.and_eq_true, decide_eq_true_eq] at hc
      exact hc.1
    split at h
    · next label rest hb =>
      obtain ⟨rfl, hmem⟩ := bracketed?_eq_some hb
      split at h
      · cases h
      · next d label =>
        obtain ⟨-, h⟩ := Option.ite_none_left_eq_some.mp h
        obtain rfl := Option.some.inj h
        exact ⟨d :: label, rest, hitUpTo_takes (by simp) (by simp), rfl, hmem, by simp⟩
    · cases h
  · cases h

theorem footnoteRule_eq_some {s : References} {before : Option Char} {c : Char} {r : Text}
    {hit : Hit} (h : footnoteRule s before c r = some hit) :
    ∃ id rest, hit.Takes c r ('[' :: '^' :: (id ++ [']'])) rest ∧ ']' ∉ id ∧
      (hit.text = '[' :: '^' :: (id ++ [']']) ∨
        ∃ f, s.footnote? id = some f ∧ hit.text = footnoteAnchor id f.index) := by
  unfold footnoteRule at h
  split at h
  · split at h
    · next id rest hb =>
      obtain ⟨rfl, hmem⟩ := bracketed?_eq_some hb
      split at h
      · cases h
      · split at h
        · next f hf =>
          obtain rfl := Option.some.inj h
          exact ⟨id, rest, hitUpTo_takes (by simp) (by simp), hmem, .inr ⟨f, hf, rfl⟩⟩
        · obtain rfl := Option.some.inj h
          exact ⟨id, rest, hitUpTo_takes (by simp) (by simp), hmem, .inl (by simp [hitUpTo])⟩
    · cases h
  · cases h

/-! ### Addresses in angle brackets -/

/-- An opening angle bracket, plain or written for HTML. -/
def IsOpen (b : Text) : Prop :=
  b = "&lt;".toList ∨ b = ['<']

/-- A closing angle bracket, plain or written for HTML. -/
def IsClose (b : Text) : Prop :=
  b = "&gt;".toList ∨ b = ['>']

theorem afterOpen?_eq_some {t r : Text} (h : afterOpen? t = some r) :
    ∃ b, IsOpen b ∧ t = b ++ r := by
  unfold afterOpen? at h
  split at h
  · next r' hr =>
    obtain rfl := Option.some.inj h
    exact ⟨_, .inl rfl, after?_eq_some_iff.mp hr⟩
  · exact ⟨_, .inr rfl, after?_eq_some_iff.mp h⟩

theorem afterClose?_eq_some {t r : Text} (h : afterClose? t = some r) :
    ∃ b, IsClose b ∧ t = b ++ r := by
  unfold afterClose? at h
  split at h
  · next r' hr =>
    obtain rfl := Option.some.inj h
    exact ⟨_, .inl rfl, after?_eq_some_iff.mp hr⟩
  · exact ⟨_, .inr rfl, after?_eq_some_iff.mp h⟩

theorem IsOpen.ne_nil {b : Text} (h : IsOpen b) : b ≠ [] := by
  rcases h with rfl | rfl <;> simp

theorem urlRule_eq_some {before : Option Char} {c : Char} {r : Text} {hit : Hit}
    (h : urlRule before c r = some hit) :
    ∃ o scheme body b rest, IsOpen o ∧ IsClose b ∧ scheme ∈ schemes ∧
      hit.Takes c r (o ++ (scheme ++ (body ++ b))) rest ∧
      hit.text = anchor (scheme ++ body) none (scheme ++ body) ∧
      body ≠ [] ∧ ∀ d ∈ body, isAddressChar d = true := by
  unfold urlRule at h
  split at h
  · cases h
  · next t ht =>
    obtain ⟨o, ho, hsource⟩ := afterOpen?_eq_some ht
    split at h
    · cases h
    · next scheme body hscheme =>
      obtain ⟨s, hs, hfound⟩ := List.exists_of_findSome?_eq_some hscheme
      obtain ⟨rest, hafter, heq⟩ := Option.map_eq_some_iff.mp hfound
      obtain ⟨rfl, rfl⟩ := Prod.mk.inj heq
      rw [after?_eq_some_iff] at hafter
      split at h
      · cases h
      · next n hn =>
        obtain ⟨hpos, hle, hall, -⟩ := shortest?_eq_some hn
        obtain ⟨rest', hrest, rfl⟩ := Option.map_eq_some_iff.mp h
        obtain ⟨b, hb, hclose⟩ := afterClose?_eq_some hrest
        have hsplit : rest.take n ++ (b ++ rest') = rest := by
          rw [← hclose, List.take_append_drop]
        refine ⟨o, s, rest.take n, b, rest', ho, hb, hs, hitUpTo_takes ?_ ?_, rfl, ?_, hall⟩
        · exact List.append_ne_nil_of_left_ne_nil ho.ne_nil _
        · simp only [List.append_assoc]
          rw [hsource, hafter, hsplit]
        · exact List.ne_nil_of_length_pos (by rw [List.length_take_of_le hle]; exact hpos)

theorem not_mem_address {scheme body : Text} (hscheme : scheme ∈ schemes)
    (hbody : ∀ d ∈ body, isAddressChar d = true) : '<' ∉ scheme ++ body := by
  have hschemes : schemes.all (fun s => !s.contains '<') = true := by
    unfold schemes
    repeat rw [String.toList_ofList]
    decide
  intro hmem
  rcases List.mem_append.mp hmem with h | h
  · simpa [h] using List.all_eq_true.mp hschemes scheme hscheme
  · simpa [isAddressChar] using hbody '<' h

theorem mailRule_eq_some {before : Option Char} {c : Char} {r : Text} {hit : Hit}
    (h : mailRule before c r = some hit) :
    ∃ o user domain b rest, IsOpen o ∧ IsClose b ∧
      hit.Takes c r (o ++ (user ++ '@' :: (domain ++ b))) rest ∧
      hit.text = anchor ("mailto:".toList ++ (user ++ '@' :: domain)) none (user ++ '@' :: domain) ∧
      user ≠ [] ∧ (∀ d ∈ user, isMailChar d = true) ∧ ∀ d ∈ domain, isMailChar d = true := by
  unfold mailRule at h
  split at h
  · cases h
  · next t ht =>
    obtain ⟨o, ho, hsource⟩ := afterOpen?_eq_some ht
    dsimp only at h
    split at h
    · next rest hrest =>
      obtain ⟨hcond, h⟩ := Option.ite_none_left_eq_some.mp h
      obtain ⟨rest', hrest', rfl⟩ := Option.map_eq_some_iff.mp h
      obtain ⟨b, hb, hclose⟩ := afterClose?_eq_some hrest'
      have hdomain := takeWhile_append_drop isMailChar rest
      have huser := takeWhile_append_drop isMailChar t
      rw [hrest] at huser
      rw [hclose] at hdomain
      refine ⟨o, t.takeWhile isMailChar, rest.takeWhile isMailChar, b, rest', ho, hb,
        hitUpTo_takes ?_ ?_, rfl, ?_, fun d hd => of_mem_takeWhile hd,
        fun d hd => of_mem_takeWhile hd⟩
      · exact List.append_ne_nil_of_left_ne_nil ho.ne_nil _
      · simp only [List.append_assoc, List.cons_append]
        rw [hdomain, huser, hsource]
      · simp only [Bool.or_eq_true, not_or, List.isEmpty_iff] at hcond
        exact hcond.1
    · cases h

/-! ### Escapes, colours and line breaks -/

theorem escapeRule_eq_some {before : Option Char} {c : Char} {r : Text} {hit : Hit}
    (h : escapeRule before c r = some hit) :
    ∃ n s rest, escapable[n]? = some s ∧ hit.Takes c r ('\\' :: s) rest ∧
      hit.text = [standIn n] := by
  unfold escapeRule at h
  split at h
  · next hc =>
    subst hc
    split at h
    · next n hn =>
      obtain rfl := Option.some.inj h
      obtain ⟨hlt, hs, -⟩ := List.findIdx?_eq_some_iff_getElem.mp hn
      obtain ⟨rest, rfl⟩ := List.isPrefixOf_iff_prefix.mp hs
      refine ⟨n, escapable[n], rest, List.getElem?_eq_getElem hlt, Hit.takes_of_length rfl ?_, rfl⟩
      simp [List.getElem?_eq_getElem hlt]
    · cases h
  · cases h

theorem standsFor?_eq_none {c : Char} (h : c.toNat < 0xe000 ∨ 0xe00d < c.toNat) :
    standsFor? c = none := by
  have hlength : escapable.length = 14 := rfl
  unfold standsFor? firstStandIn
  split
  · exact List.getElem?_eq_none (by omega)
  · rfl

theorem colorDigits?_eq_some {p : Option Char → Bool} {t : Text} {n : Nat}
    (h : colorDigits? p t = some n) :
    n ≤ t.length ∧ (∀ d ∈ t.take n, isHexDigit d = true) ∧ p (t.drop n).head? = true ∧
      (n = 3 ∨ n = 6) := by
  have hfits : ∀ k, ((t.take k).length = k && (t.take k).all isHexDigit && p (t.drop k).head?) = true →
      k ≤ t.length ∧ (∀ d ∈ t.take k, isHexDigit d = true) ∧ p (t.drop k).head? = true := by
    intro k hk
    simp only [Bool.and_eq_true, decide_eq_true_eq, List.all_eq_true, List.length_take] at hk
    exact ⟨by omega, hk.1.2, hk.2⟩
  unfold colorDigits? at h
  dsimp only at h
  split at h
  · next h6 =>
    obtain rfl := Option.some.inj h
    obtain ⟨hle, hall, hbehind⟩ := hfits 6 h6
    exact ⟨hle, hall, hbehind, .inr rfl⟩
  · split at h
    · next h3 =>
      obtain rfl := Option.some.inj h
      obtain ⟨hle, hall, hbehind⟩ := hfits 3 h3
      exact ⟨hle, hall, hbehind, .inl rfl⟩
    · cases h

theorem colorRule_eq_some {before : Option Char} {c : Char} {r : Text} {hit : Hit}
    (h : colorRule before c r = some hit) :
    ∃ digits rest, colorAfter before = true ∧ hit.Takes c r ('#' :: digits) rest ∧
      hit.text = colorPreview ('#' :: digits) ∧ (digits.length = 3 ∨ digits.length = 6) ∧
      ∀ d ∈ digits, isHexDigit d = true := by
  unfold colorRule at h
  split at h
  · next hc =>
    simp only [Bool.and_eq_true, decide_eq_true_eq] at hc
    obtain ⟨rfl, hbefore⟩ := hc
    obtain ⟨n, hn, rfl⟩ := Option.map_eq_some_iff.mp h
    obtain ⟨hle, hall, -, hsize⟩ := colorDigits?_eq_some hn
    refine ⟨r.take n, r.drop n, hbefore, Hit.takes_of_length ?_ ?_, rfl, ?_, hall⟩
    · rw [List.cons_append, List.take_append_drop]
    · simp [List.length_take_of_le hle]
    · rwa [List.length_take_of_le hle]
  · cases h

theorem hardBreakRule_eq_some {before : Option Char} {c : Char} {r : Text} {hit : Hit}
    (h : hardBreakRule before c r = some hit) :
    ∃ spaces rest, hit.Takes c r (' ' :: (spaces ++ ['\n'])) rest ∧
      hit.text = "<br />\n".toList ∧ spaces ≠ [] ∧ ∀ d ∈ spaces, d = ' ' := by
  unfold hardBreakRule at h
  split at h
  · next hc =>
    subst hc
    dsimp only at h
    split at h
    · next rest hrest =>
      obtain ⟨hne, h⟩ := Option.ite_none_left_eq_some.mp h
      obtain rfl := Option.some.inj h
      have hsplit := takeWhile_append_drop (· = ' ') r
      rw [hrest] at hsplit
      refine ⟨r.takeWhile (· = ' '), rest, Hit.takes_of_length ?_ ?_, rfl, by simpa using hne, ?_⟩
      · rw [List.cons_append, List.append_assoc, List.singleton_append, hsplit]
      · simp
      · intro d hd
        simpa using of_mem_takeWhile hd
    · cases h
  · cases h

/-! ### Code spans -/

theorem codeSpan?_eq_some {c : Char} {r body : Text} (h : codeSpan? c r = some body) :
    ∃ rest, c :: r = '\x60' :: (body ++ '\x60' :: rest) ∧ r.drop (body.length + 1) = rest ∧
      body ≠ [] ∧ '\x60' ∉ body := by
  unfold codeSpan? at h
  split at h
  · next hc =>
    subst hc
    obtain ⟨hne, h⟩ := Option.ite_none_left_eq_some.mp h
    obtain rfl := Option.some.inj h
    simp only [Bool.or_eq_true, not_or, List.isEmpty_iff] at hne
    obtain ⟨hbody, hrest⟩ := hne
    rw [drop_length_takeWhile] at hrest
    obtain ⟨d, rest, hdrop⟩ := List.exists_cons_of_ne_nil hrest
    obtain rfl : d = '\x60' := by simpa using not_of_dropWhile_eq_cons hdrop
    refine ⟨rest, ?_, ?_, hbody, fun hmem => by simpa using of_mem_takeWhile hmem⟩
    · rw [← hdrop, List.takeWhile_append_dropWhile]
    · rw [← List.drop_drop, drop_length_takeWhile, hdrop, List.drop_one, List.tail_cons]
  · cases h

theorem stashSpans_append_of_not_mem {x : Text} (h : '\x60' ∉ x) (number : Nat)
    (y : Text) :
    stashSpans number (segment codeStep () (x ++ y)) =
      let p := stashSpans number (segment codeStep () y)
      (x ++ p.1, p.2) := by
  induction x with
  | nil => rfl
  | cons c x ih =>
    obtain ⟨hc, hx⟩ := List.ne_and_not_mem_of_not_mem_cons h
    have hstep : codeStep () c (x ++ y) = ⟨0, none, ()⟩ := by
      rw [codeStep, codeSpan?, if_neg hc.symm]
    simp [segment_cons, hstep, stashSpans, ih hx]

/-- **Induction over the code spans of a text.** As for `Text.replaceFrom_of_hits`, `P` is what holds
of the text and `Q` what is to hold of the text with the marks; `R` is what holds of the spans. -/
theorem stashSpans_of_hits {P Q R : Text → Prop} (hPQ : ∀ t, P t → Q t)
    (happend : ∀ s t, Q s → Q t → Q (s ++ t)) (hmark : ∀ n, Q (codeMark n))
    (hhit : ∀ x body rest, P (x ++ '\x60' :: (body ++ '\x60' :: rest)) → '\x60' ∉ body →
      P x ∧ R body ∧ P rest)
    (number : Nat) (x t : Text) (h : P (x ++ t)) :
    Q (x ++ (stashSpans number (segment codeStep () t)).1) ∧
      ∀ s ∈ (stashSpans number (segment codeStep () t)).2, ∃ body, R body ∧ s = element "code" body := by
  induction hn : t.length using Nat.strongRecOn generalizing number x t with
  | ind n ih =>
    cases t with
    | nil => simpa [stashSpans] using hPQ _ h
    | cons c r =>
      simp only [List.length_cons] at hn
      rw [segment_cons]
      cases hspan : codeSpan? c r with
      | none =>
        have hstep : codeStep () c r = ⟨0, none, ()⟩ := by rw [codeStep, hspan]
        have hrest := ih r.length (by omega) number (x ++ [c]) r (by simpa using h) rfl
        rw [hstep]
        simpa [stashSpans] using hrest
      | some body =>
        have hstep : codeStep () c r = ⟨body.length + 1, some body, ()⟩ := by rw [codeStep, hspan]
        obtain ⟨rest, hsplit, hdrop, -, hmem⟩ := codeSpan?_eq_some hspan
        rw [hsplit] at h
        obtain ⟨hx, hbody, hP⟩ := hhit x body rest h hmem
        have hlen : rest.length < n := by
          rw [← hdrop, List.length_drop]
          omega
        obtain ⟨htext, hstash⟩ := ih _ hlen (number + 1) [] rest hP rfl
        rw [hstep]
        simp only [stashSpans, hdrop]
        refine ⟨happend _ _ (hPQ _ hx) (happend _ _ (hmark number) htext), ?_⟩
        intro s hs
        rcases List.mem_cons.mp hs with rfl | hs
        · exact ⟨body, hbody, rfl⟩
        · exact hstash s hs

theorem codeNumber?_eq_some {c : Char} {r digits : Text} (h : codeNumber? c r = some digits) :
    ∃ rest, c :: r = codeOpen :: (digits ++ codeClose :: rest) ∧
      r.drop (digits.length + 1) = rest ∧ ∀ d ∈ digits, isDigit d = true := by
  unfold codeNumber? at h
  split at h
  · next hc =>
    subst hc
    obtain ⟨hne, h⟩ := Option.ite_none_left_eq_some.mp h
    obtain rfl := Option.some.inj h
    simp only [Bool.or_eq_true, not_or, List.isEmpty_iff, decide_eq_true_eq, not_not] at hne
    obtain ⟨-, hrest⟩ := hne
    rw [drop_length_takeWhile] at hrest
    obtain ⟨rest, hdrop⟩ := List.head?_eq_some_iff.mp hrest
    refine ⟨rest, ?_, ?_, fun d hd => of_mem_takeWhile hd⟩
    · rw [← hdrop, List.takeWhile_append_dropWhile]
    · rw [← List.drop_drop, drop_length_takeWhile, hdrop, List.drop_one, List.tail_cons]
  · cases h

/-- Putting code spans back, as a rule of replacement. -/
def restoreRule (stash : Stash) : Rule := fun _ c r =>
  (codeNumber? c r).map fun digits =>
    ⟨digits.length + 1,
      (stash[digitsValue digits]?).getD (c :: r.take (digits.length + 1))⟩

theorem value_unstash (stash : Stash) (p : Segment (Option Text)) :
    (unstash stash p).value =
      (p.label.bind fun digits => stash[digitsValue digits]?).getD p.text := by
  unfold unstash
  cases p.label with
  | none => rfl
  | some digits =>
    by_cases hlong : Json.maxDigits < digits.length
    · simp [hlong]
    · simp [hlong]

theorem replaceFrom_restoreRule (stash : Stash) (before : Option Char) (t : Text) :
    replaceFrom (restoreRule stash) before t =
      ((segment codeMarkStep () t).map fun p => (unstash stash p).value).flatten := by
  induction hn : t.length using Nat.strongRecOn generalizing before t with
  | ind n ih =>
    cases t with
    | nil => simp
    | cons c r =>
      simp only [List.length_cons] at hn
      rw [segment_cons]
      cases hnumber : codeNumber? c r with
      | none =>
        have hrule : restoreRule stash before c r = none := by rw [restoreRule, hnumber]; rfl
        have hstep : codeMarkStep () c r = ⟨0, none, ()⟩ := by rw [codeMarkStep, hnumber]
        rw [replaceFrom_cons_none hrule, ih _ (by omega) _ r rfl, hstep]
        simp [value_unstash]
      | some digits =>
        have hrule : restoreRule stash before c r = some ⟨digits.length + 1,
            (stash[digitsValue digits]?).getD (c :: r.take (digits.length + 1))⟩ := by
          rw [restoreRule, hnumber]; rfl
        have hstep : codeMarkStep () c r = ⟨digits.length + 1, some digits, ()⟩ := by
          rw [codeMarkStep, hnumber]
        have hlen : (r.drop (digits.length + 1)).length < n := by
          rw [List.length_drop]
          omega
        rw [replaceFrom_cons_some hrule, ih _ hlen _ _ rfl, hstep]
        simp [value_unstash]

theorem value_restoreCode (stash : Stash) (t : Text) :
    (restoreCode stash t).value =
      if stash.isEmpty then t else replaceBy (restoreRule stash) t := by
  rw [replaceBy_eq_replaceFrom, replaceFrom_restoreRule]
  unfold restoreCode
  split
  · rfl
  · simp

theorem restoreRule_eq_some {stash : Stash} {before : Option Char} {c : Char} {r : Text} {hit : Hit}
    (h : restoreRule stash before c r = some hit) :
    ∃ digits rest, hit.Takes c r (codeOpen :: (digits ++ [codeClose])) rest ∧
      (∀ d ∈ digits, isDigit d = true) ∧
      (hit.text = codeOpen :: (digits ++ [codeClose]) ∨ hit.text ∈ stash) := by
  obtain ⟨digits, hdigits, rfl⟩ := Option.map_eq_some_iff.mp h
  obtain ⟨rest, hsplit, hdrop, hall⟩ := codeNumber?_eq_some hdigits
  have hwhole : c :: r = codeOpen :: (digits ++ [codeClose]) ++ rest := by simpa using hsplit
  refine ⟨digits, rest, ⟨hwhole, hdrop⟩, hall, ?_⟩
  cases hstash : stash[digitsValue digits]? with
  | none => exact .inl (@Hit.Takes.take ⟨digits.length + 1, []⟩ _ _ _ _ ⟨hwhole, hdrop⟩)
  | some s => exact .inr (List.mem_of_getElem? hstash)

/-! ### All rules -/

theorem value_render (s : References) (sanitize : Bool) (t : Text) :
    (render s sanitize t).value =
      let p := protectCode [] (protectEscapes (if sanitize then Html.escape t else t))
      revertEscapes (restoreCode p.2 (markUp s sanitize p.1)).value := rfl

end Markdown.Inline
