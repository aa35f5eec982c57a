import Markdown.Proofs.Containment

/-!
# Rules that run on tags with attributes

From the links on, a rule may take a text with tags that have attributes. It leaves the values of
attributes alone if its match begins outside of tags and no double quote of the match goes into an
attribute. This is a condition on the text, since the rules do not look for it; it can be computed.
-/

namespace Markdown

open Text Html

/-! ### Parts and their replacements -/

namespace Text

/-- The text whose parts these are. -/
def source (ps : List (Segment (Option Text))) : Text :=
  ps.flatMap Segment.text

/-- The text with the replacements of its parts. -/
def written (ps : List (Segment (Option Text))) : Text :=
  ps.flatMap fun p => p.label.getD p.text

@[simp] theorem source_cons (p : Segment (Option Text)) (ps : List (Segment (Option Text))) :
    source (p :: ps) = p.text ++ source ps := rfl

@[simp] theorem written_cons (p : Segment (Option Text)) (ps : List (Segment (Option Text))) :
    written (p :: ps) = p.label.getD p.text ++ written ps := rfl

@[simp] theorem source_append (ps qs : List (Segment (Option Text))) :
    source (ps ++ qs) = source ps ++ source qs :=
  List.flatMap_append

@[simp] theorem written_append (ps qs : List (Segment (Option Text))) :
    written (ps ++ qs) = written ps ++ written qs :=
  List.flatMap_append

theorem source_pieces (rule : Rule) (t : Text) : source (pieces rule t) = t :=
  flatMap_text_segment _ _ _

/-- A part with a replacement is what a hit takes. -/
theorem exists_hit_of_mem_pieces {rule : Rule} {t : Text} {p : Segment (Option Text)} {html : Text}
    (h : p ∈ pieces rule t) (hlabel : p.label = some html) :
    ∃ before c r hit rest, rule before c r = some hit ∧ hit.Takes c r p.text rest ∧
      hit.text = html := by
  have hgeneral : ∀ n before (t : Text), t.length = n → p ∈ segment (replaceStep rule) before t →
      ∃ before c r hit rest, rule before c r = some hit ∧ hit.Takes c r p.text rest ∧
        hit.text = html := by
    intro n
    induction n using Nat.strongRecOn with
    | ind n ih =>
      intro before t hn hmem
      cases t with
      | nil => simp at hmem
      | cons c r =>
        simp only [List.length_cons] at hn
        rw [segment_cons, List.mem_cons] at hmem
        rcases hmem with rfl | hmem
        · cases hrule : rule before c r with
          | none => simp [replaceStep, hrule] at hlabel
          | some hit =>
            simp only [replaceStep, hrule, Option.some.injEq] at hlabel ⊢
            exact ⟨before, c, r, hit, r.drop hit.extra, hrule, ⟨by simp, rfl⟩, hlabel⟩
        · exact ih _ (by simp only [List.length_drop]; omega) _ _ rfl hmem
  exact hgeneral _ _ _ rfl h

end Text

namespace Inline

/-! ### Readers of replaced texts -/

/-- A reader is in the same place behind each part and behind its replacement. -/
def Rereads : Reader → List (Segment (Option Text)) → Prop
  | _, [] => True
  | q, p :: ps => q.read (p.label.getD p.text) = q.read p.text ∧ Rereads (q.read p.text) ps

theorem Rereads.read_written {q : Reader} {ps : List (Segment (Option Text))} (h : Rereads q ps) :
    q.read (written ps) = q.read (source ps) := by
  induction ps generalizing q with
  | nil => rfl
  | cons p ps ih =>
    obtain ⟨hp, hps⟩ := h
    rw [written_cons, source_cons, Reader.read_append, Reader.read_append, hp]
    exact ih hps

/-- Replacements that can be put in everywhere. -/
theorem rereads_of_forall {ps : List (Segment (Option Text))}
    (h : ∀ p ∈ ps, ∀ html, p.label = some html → ∀ q : Reader, q.read p.text ≠ .broken →
      q.read html = q.read p.text)
    {q : Reader} (hq : q.read (source ps) ≠ .broken) : Rereads q ps := by
  induction ps generalizing q with
  | nil => trivial
  | cons p ps ih =>
    rw [source_cons] at hq
    have hp := Reader.ne_broken_of_append hq
    rw [Reader.read_append] at hq
    refine ⟨?_, ih (fun p' hp' => h p' (by simp [hp'])) hq⟩
    cases hlabel : p.label with
    | none => rfl
    | some html => exact h p (by simp) html hlabel q hp

/-- A rule whose replacements can be put in everywhere keeps a text contained. -/
theorem contained_replaceBy {rule : Rule}
    (h : ∀ before c r hit old rest, rule before c r = some hit → hit.Takes c r old rest →
      ∀ q : Reader, q.read old ≠ .broken → q.read hit.text = q.read old)
    {t : Text} (ht : Contained t) : Contained (replaceBy rule t) := by
  have hsource := source_pieces rule t
  have hall : Rereads .text (pieces rule t) := by
    refine rereads_of_forall (fun p hp html hlabel q hq => ?_) ?_
    · obtain ⟨before, c, r, hit, rest, hrule, htakes, rfl⟩ := exists_hit_of_mem_pieces hp hlabel
      exact h before c r hit p.text rest hrule htakes q hq
    · rw [hsource, ht]
      simp
  have hread := hall.read_written
  rw [hsource, ht] at hread
  exact hread

/-! ### Undisturbed tags -/

/-- A part stays as it is, or it begins outside of tags and no double quote of it goes into an
attribute. -/
def leavesTags (values : Text → Text) (q : Reader) (p : Segment (Option Text)) : Bool :=
  match p.label with
  | none => true
  | some html =>
    html = p.text || (q = .text && !(values p.text).contains '"')

/-- All parts leave the tags alone. -/
def allLeaveTags (values : Text → Text) : Reader → List (Segment (Option Text)) → Bool
  | _, [] => true
  | q, p :: ps => leavesTags values q p && allLeaveTags values (q.read p.text) ps

/-- A rule that runs when there are tags with attributes. -/
structure Stage where
  /-- What the rule takes and leaves of a text. -/
  pieces : Text → List (Segment (Option Text))
  /-- The part of a match from which the values of attributes are taken. -/
  values : Text → Text

/-- A stage loses nothing, and at a match that leaves the tags alone a reader gets as far with what
is written as with what is taken. -/
structure Stage.Sound (g : Stage) : Prop where
  /-- The pieces are those of the text. -/
  complete : ∀ t, source (g.pieces t) = t
  /-- What is written is read like what is taken. -/
  read : ∀ t, ∀ p ∈ g.pieces t, ∀ html, p.label = some html → html ≠ p.text →
    Reader.text.read p.text ≠ .broken → '"' ∉ g.values p.text →
    Reader.text.read html = Reader.text.read p.text

theorem rereads_of_allLeaveTags {values : Text → Text} {ps : List (Segment (Option Text))}
    (hps : ∀ p ∈ ps, ∀ html, p.label = some html → html ≠ p.text →
      Reader.text.read p.text ≠ .broken → '"' ∉ values p.text →
      Reader.text.read html = Reader.text.read p.text)
    {q : Reader} (hq : q.read (source ps) ≠ .broken) (h : allLeaveTags values q ps = true) :
    Rereads q ps := by
  induction ps generalizing q with
  | nil => trivial
  | cons p ps ih =>
    rw [allLeaveTags, Bool.and_eq_true] at h
    obtain ⟨hp, hrest⟩ := h
    rw [source_cons] at hq
    have hread := Reader.ne_broken_of_append hq
    rw [Reader.read_append] at hq
    refine ⟨?_, ih (fun p' hp' => hps p' (by simp [hp'])) hq hrest⟩
    cases hlabel : p.label with
    | none => rfl
    | some html =>
      by_cases heq : html = p.text
      · rw [heq]
        rfl
      · simp only [leavesTags, hlabel, heq, decide_false, Bool.false_or, Bool.and_eq_true,
          decide_eq_true_eq, Bool.not_eq_true', List.contains_eq_mem, decide_eq_false_iff_not] at hp
        obtain ⟨rfl, hquote⟩ := hp
        exact hps p (by simp) html hlabel heq hread hquote

theorem Stage.Sound.contained_written {g : Stage} (hg : g.Sound) {t : Text} (ht : Contained t)
    (h : allLeaveTags g.values .text (g.pieces t) = true) : Contained (written (g.pieces t)) := by
  have hread : Reader.text.read (source (g.pieces t)) = .text := (hg.complete t).symm ▸ ht
  have hwritten := (rereads_of_allLeaveTags (hg.read t) (by rw [hread]; simp) h).read_written
  exact hwritten.trans hread

/-- Applies stages one after another. -/
def runStages (gs : List Stage) (t : Text) : Text :=
  gs.foldl (fun t g => written (g.pieces t)) t

/-- Each stage leaves the tags alone in the text that it finds. -/
def undisturbedBy : List Stage → Text → Bool
  | [], _ => true
  | g :: gs, t => allLeaveTags g.values .text (g.pieces t) && undisturbedBy gs (written (g.pieces t))

theorem contained_runStages {gs : List Stage} (hgs : ∀ g ∈ gs, g.Sound) {t : Text}
    (ht : Contained t) (h : undisturbedBy gs t = true) : Contained (runStages gs t) := by
  induction gs generalizing t with
  | nil => exact ht
  | cons g gs ih =>
    rw [undisturbedBy, Bool.and_eq_true] at h
    exact ih (fun g' hg' => hgs g' (by simp [hg']))
      ((hgs g (by simp)).contained_written ht h.1) h.2

/-! ### The stages -/

/-- What follows the label of a link or a reference, from its closing bracket on. -/
def behindLabel (t : Text) : Text :=
  t.dropWhile (· ≠ ']')

/-- The stage of a rule for links and references: their labels stay text. -/
def labelStage (rule : Rule) : Stage :=
  ⟨pieces rule, behindLabel⟩

/-- The stage of a rule that may copy everything it takes into attributes. -/
def plainStage (rule : Rule) : Stage :=
  ⟨pieces rule, id⟩

theorem values_labelStage (rule : Rule) : (labelStage rule).values = behindLabel := rfl

theorem values_plainStage (rule : Rule) (t : Text) : (plainStage rule).values t = t := rfl

/-- The pieces of a text in which colours are looked for between the tags. -/
def colorPieces (t : Text) : List (Segment (Option Text)) :=
  (parts t).flatMap fun p =>
    match p.label with
    | .tag => [⟨none, p.text⟩]
    | .text => if p.text.startsWith ['<'] then [⟨none, p.text⟩] else pieces colorRule p.text

/-- The rules behind the images, in order. -/
def stages (s : References) : List Stage :=
  [labelStage linkRule, labelStage (fullReferenceRule s true), labelStage (shortcutRule s true),
    plainStage urlRule, plainStage mailRule, plainStage (footnoteRule s), ⟨colorPieces, id⟩]

theorem colorPreviews_eq_written (t : Text) : colorPreviews t = written (colorPieces t) := by
  unfold colorPreviews mapTexts colorPieces written
  rw [List.flatMap_assoc]
  congr 1
  funext p
  cases p.label with
  | tag => simp
  | text =>
    dsimp only
    by_cases hopen : p.text.startsWith ['<'] = true
    · simp [hopen]
    · rw [if_neg hopen, if_neg hopen]
      rfl

theorem source_colorPieces (t : Text) : source (colorPieces t) = t := by
  have hparts : (parts t).flatMap Segment.text = t := flatMap_text_segment _ _ _
  conv => rhs; rw [← hparts]
  unfold colorPieces source
  rw [List.flatMap_assoc]
  congr 1
  funext p
  split
  · simp
  · split
    · simp
    · exact source_pieces colorRule p.text

theorem markUp_eq_runStages (s : References) (t : Text) :
    markUp s true t =
      hardBreaks (runStages (stages s) (replaceBy imageRule (decorations (emphasis t)))) := by
  unfold markUp
  rw [colorPreviews_eq_written]
  rfl

/-- What a match with a label does to a reader: the label decides, and it ends outside of tags or in
a value. -/
theorem read_labelled {label tail : Text} {c : Char} (hc : Reader.isForeign c = true)
    (h : Reader.text.read ('[' :: (label ++ ']' :: (tail ++ [c]))) ≠ .broken)
    (htail : '"' ∉ tail ++ [c]) :
    Reader.text.read ('[' :: (label ++ ']' :: (tail ++ [c]))) = Reader.text.read label ∧
      (Reader.text.read label = .text ∨ Reader.text.read label = .value) := by
  have hsplit : Reader.text.read ('[' :: (label ++ ']' :: (tail ++ [c]))) =
      ((Reader.text.read label).step ']').read (tail ++ [c]) := by
    rw [Reader.read_cons, Reader.read_append, Reader.read_cons]
    rfl
  rw [hsplit] at h ⊢
  have hstep : (Reader.text.read label).step ']' ≠ .broken := by
    intro hbroken
    rw [hbroken, Reader.read_broken] at h
    exact h rfl
  rcases Reader.eq_of_foreign (by decide) hstep with ⟨hlabel, hend⟩ | ⟨hlabel, hend⟩
  · rw [hend] at h ⊢
    rw [hlabel]
    exact ⟨Reader.read_text_of_foreign hc (fun hmem => htail (by simp [hmem])) h, .inl rfl⟩
  · rw [hend, hlabel]
    exact ⟨Reader.read_value htail, .inr rfl⟩

theorem behindLabel_eq {label tail : Text} (h : ']' ∉ label) :
    behindLabel ('[' :: (label ++ ']' :: tail)) = ']' :: tail := by
  have hall : ∀ c ∈ '[' :: label, decide (c ≠ ']') = true := by
    intro c hc
    rcases List.mem_cons.mp hc with rfl | hc
    · decide
    · exact decide_eq_true fun heq => h (heq ▸ hc)
  unfold behindLabel
  rw [← List.cons_append, List.dropWhile_append_of_pos hall]
  simp

/-- An anchor leaves a reader where its label does. -/
theorem read_anchor {url label : Text} {title : Option Text} (hurl : '"' ∉ url)
    (htitle : ∀ t ∈ title, '"' ∉ t)
    (hlabel : Reader.text.read label = .text ∨ Reader.text.read label = .value) :
    Reader.text.read (anchor url title label) = Reader.text.read label := by
  rcases hlabel with hlabel | hlabel
  · rw [hlabel]
    exact contained_anchor hurl htitle hlabel
  · obtain ⟨⟨hopen, -, -⟩, -⟩ := read_linkTexts
    have hclose : Reader.value.read "</a>".toList = .value :=
      Reader.read_value (by rw [String.toList_ofList]; decide)
    unfold anchor
    simp only [Reader.read_append, Reader.read_cons, hopen, Reader.read_value hurl]
    show (((Reader.closed.read (titleAttribute title)).step '>').read label).read "</a>".toList = _
    rw [read_titleAttribute htitle]
    show (Reader.text.read label).read "</a>".toList = _
    rw [hlabel, hclose]

theorem read_resolve {s : References} {id label old : Text}
    (hlabel : Reader.text.read label = .text ∨ Reader.text.read label = .value)
    (hne : resolve s true id label old ≠ old) :
    Reader.text.read (resolve s true id label old) = Reader.text.read label := by
  unfold resolve at hne ⊢
  split
  · next t _ =>
    refine read_anchor (quiet_escape _).2 (fun title htitle => ?_) hlabel
    obtain ⟨u, -, rfl⟩ := Option.map_eq_some_iff.mp htitle
    exact (quiet_escape u).2
  · next hnone => exact absurd (by rw [hnone]) hne

theorem sound_linkStage : (labelStage linkRule).Sound := by
  refine ⟨source_pieces linkRule, fun t p hp html hlabel _ hread hquote => ?_⟩
  obtain ⟨before, c, r, hit, rest, hrule, htakes, rfl⟩ := exists_hit_of_mem_pieces hp hlabel
  obtain ⟨label, closing, target, hclosing, htakes', htext, hmem, -⟩ := linkRule_eq_some hrule
  rw [← htakes.take, htakes'.take] at hread hquote ⊢
  rw [values_labelStage, behindLabel_eq hmem] at hquote
  have htail : '"' ∉ '(' :: (target.url ++ closing) := fun h => hquote (List.mem_cons_of_mem _ h)
  have hparts := htail
  simp only [List.mem_cons, List.mem_append, not_or] at hparts
  obtain ⟨front, hfront⟩ := hclosing.ends
  have hend : '(' :: (target.url ++ closing) = '(' :: (target.url ++ front) ++ [')'] := by
    simp [hfront]
  rw [hend] at hread htail ⊢
  obtain ⟨hold, hplace⟩ := read_labelled (by decide) hread htail
  rw [htext, hold]
  exact read_anchor hparts.2.1 (hclosing.quote hparts.2.2) hplace

theorem sound_fullReferenceStage (s : References) : (labelStage (fullReferenceRule s true)).Sound := by
  refine ⟨source_pieces _, fun t p hp html hlabel hne hread hquote => ?_⟩
  obtain ⟨before, c, r, hit, rest, hrule, htakes, rfl⟩ := exists_hit_of_mem_pieces hp hlabel
  obtain ⟨label, id, rest', htakes', htext, hmem, -⟩ := fullReferenceRule_eq_some hrule
  rw [← htakes.take, htakes'.take] at hread hquote hne ⊢
  rw [values_labelStage, behindLabel_eq hmem] at hquote
  rw [htext] at hne ⊢
  have htail : '"' ∉ '[' :: id ++ [']'] := fun h => hquote (List.mem_cons_of_mem _ h)
  rw [show ']' :: '[' :: (id ++ [']']) = ']' :: ('[' :: id ++ [']']) from rfl] at hread ⊢
  obtain ⟨hold, hplace⟩ := read_labelled (by decide) hread htail
  exact (read_resolve hplace hne).trans hold.symm

theorem sound_shortcutStage (s : References) : (labelStage (shortcutRule s true)).Sound := by
  refine ⟨source_pieces _, fun t p hp html hlabel hne hread _ => ?_⟩
  obtain ⟨before, c, r, hit, rest, hrule, htakes, rfl⟩ := exists_hit_of_mem_pieces hp hlabel
  obtain ⟨label, rest', htakes', htext, -⟩ := shortcutRule_eq_some hrule
  rw [← htakes.take, htakes'.take] at hread hne ⊢
  rw [htext] at hne ⊢
  have hsplit : Reader.text.read ('[' :: (label ++ [']'])) = (Reader.text.read label).step ']' := by
    rw [Reader.read_cons, Reader.read_append]
    rfl
  rw [hsplit] at hread ⊢
  rcases Reader.eq_of_foreign (by decide) hread with ⟨hend, hstep⟩ | ⟨hend, hstep⟩
  · rw [read_resolve (.inl hend) hne, hstep, hend]
  · rw [read_resolve (.inr hend) hne, hstep, hend]

/-- A raw `<` in front of an address is no tag. -/
theorem broken_of_scheme {scheme rest : Text} (h : scheme ∈ schemes) :
    Reader.text.read ('<' :: (scheme ++ rest)) = .broken := by
  have hschemes : schemes.all (fun s => decide (Reader.opened.read s = .broken)) = true := by
    unfold schemes
    repeat rw [String.toList_ofList]
    rfl
  show Reader.opened.read (scheme ++ rest) = .broken
  rw [Reader.read_append, of_decide_eq_true (List.all_eq_true.mp hschemes scheme h),
    Reader.read_broken]

/-- What has no `<` but perhaps a closing angle bracket is read as text. -/
theorem IsClose.lt {b : Text} (h : IsClose b) : '<' ∉ b := by
  rcases h with rfl | rfl
  · rw [String.toList_ofList]
    decide
  · decide

theorem sound_urlStage : (plainStage urlRule).Sound := by
  refine ⟨source_pieces _, fun t p hp html hlabel _ hread hquote => ?_⟩
  obtain ⟨before, c, r, hit, rest, hrule, htakes, rfl⟩ := exists_hit_of_mem_pieces hp hlabel
  obtain ⟨o, scheme, body, b, rest', ho, hb, hscheme, htakes', htext, -, hbody⟩ :=
    urlRule_eq_some hrule
  rw [← htakes.take, htakes'.take] at hquote hread ⊢
  have hurl : '"' ∉ scheme ++ body := by
    intro h
    apply hquote
    simp only [values_plainStage, List.mem_append] at h ⊢
    rcases h with h | h
    · exact .inr (.inl h)
    · exact .inr (.inr (.inl h))
  have hlt := not_mem_address hscheme hbody
  rw [htext, show Reader.text.read (anchor (scheme ++ body) none (scheme ++ body)) = .text from
    contained_anchor hurl (by simp) (contained_of_not_mem hlt)]
  rcases ho with rfl | rfl
  · refine (contained_of_not_mem ?_).symm
    rw [← List.append_assoc scheme]
    intro h
    rcases List.mem_append.mp h with h | h
    · rw [String.toList_ofList] at h
      exact absurd h (by decide)
    · exact (List.mem_append.mp h).elim hlt hb.lt
  · exact absurd (broken_of_scheme hscheme) hread

theorem sound_mailStage : (plainStage mailRule).Sound := by
  refine ⟨source_pieces _, fun t p hp html hlabel _ hread hquote => ?_⟩
  obtain ⟨before, c, r, hit, rest, hrule, htakes, rfl⟩ := exists_hit_of_mem_pieces hp hlabel
  obtain ⟨o, user, domain, b, rest', ho, hb, htakes', htext, -, huser, hdomain⟩ :=
    mailRule_eq_some hrule
  rw [← htakes.take, htakes'.take] at hquote hread ⊢
  have haddress : '"' ∉ user ++ '@' :: domain := by
    intro h
    apply hquote
    simp only [values_plainStage, List.mem_append, List.mem_cons] at h ⊢
    rcases h with h | h | h
    · exact .inr (.inl h)
    · exact .inr (.inr (.inl h))
    · exact .inr (.inr (.inr (.inl h)))
  have hlt : '<' ∉ user ++ '@' :: domain := by
    intro h
    rcases List.mem_append.mp h with h | h
    · exact absurd (huser _ h) (by decide)
    · rcases List.mem_cons.mp h with h | h
      · exact absurd h (by decide)
      · exact absurd (hdomain _ h) (by decide)
  have hmailto : '"' ∉ "mailto:".toList := by
    rw [String.toList_ofList]
    decide
  rw [htext, show Reader.text.read (anchor ("mailto:".toList ++ (user ++ '@' :: domain)) none
      (user ++ '@' :: domain)) = .text from
    contained_anchor (fun h => (List.mem_append.mp h).elim hmailto haddress) (by simp)
      (contained_of_not_mem hlt)]
  rcases ho with rfl | rfl
  · refine (contained_of_not_mem ?_).symm
    rw [← List.cons_append, ← List.append_assoc user]
    intro h
    rcases List.mem_append.mp h with h | h
    · rw [String.toList_ofList] at h
      exact absurd h (by decide)
    · exact (List.mem_append.mp h).elim hlt hb.lt
  · -- Behind a raw `<`, the reader is still in the tag when `@` comes.
    exfalso
    apply hread
    have hgt : '>' ∉ user := fun h => absurd (huser _ h) (by decide)
    have hquser : '"' ∉ user := fun h => haddress (List.mem_append_left _ h)
    show Reader.opened.read (user ++ '@' :: (domain ++ b)) = .broken
    rw [Reader.read_append, Reader.read_cons]
    by_cases hstep : (Reader.opened.read user).step '@' = .broken
    · rw [hstep, Reader.read_broken]
    · rcases Reader.eq_of_foreign (by decide) hstep with ⟨h, -⟩ | ⟨h, -⟩
      · exact absurd h (Reader.read_ne_text (by simp) hgt)
      · exact absurd h (Reader.read_ne_value (by simp) hquser)

theorem sound_footnoteStage (s : References) : (plainStage (footnoteRule s)).Sound := by
  refine ⟨source_pieces _, fun t p hp html hlabel hne hread hquote => ?_⟩
  obtain ⟨before, c, r, hit, rest, hrule, htakes, rfl⟩ := exists_hit_of_mem_pieces hp hlabel
  obtain ⟨id, rest', htakes', -, htext⟩ := footnoteRule_eq_some hrule
  rw [← htakes.take, htakes'.take] at hquote hne hread ⊢
  rw [values_plainStage, ← List.cons_append, ← List.cons_append] at hquote
  have hfront : '"' ∉ '[' :: '^' :: id := fun h => hquote (List.mem_append_left _ h)
  have hid : '"' ∉ id := fun h => hfront (by simp [h])
  have hold : Reader.text.read ('[' :: '^' :: id ++ [']']) = .text :=
    Reader.read_text_of_foreign (by decide) hfront hread
  rcases htext with htext | ⟨f, -, htext⟩
  · exact absurd htext hne
  · rw [htext]
    exact (contained_footnoteAnchor hid f.index).trans hold.symm

/-- Where a piece between the tags is replaced, a colour is taken. -/
theorem exists_color_of_mem_colorPieces {t html : Text} {p : Segment (Option Text)}
    (hp : p ∈ colorPieces t) (hlabel : p.label = some html) :
    ∃ digits, p.text = '#' :: digits ∧ html = colorPreview ('#' :: digits) ∧
      ∀ d ∈ digits, isHexDigit d = true := by
  obtain ⟨u, -, hu⟩ := List.mem_flatMap.mp hp
  have hpieces : p ∈ pieces colorRule u.text := by
    split at hu
    · obtain rfl := List.mem_singleton.mp hu
      cases hlabel
    · split at hu
      · obtain rfl := List.mem_singleton.mp hu
        cases hlabel
      · exact hu
  obtain ⟨before, c, r, hit, rest, hrule, htakes, rfl⟩ := exists_hit_of_mem_pieces hpieces hlabel
  obtain ⟨digits, rest', -, htakes', htext, -, hdigits⟩ := colorRule_eq_some hrule
  exact ⟨digits, htakes.take.symm.trans htakes'.take, htext, hdigits⟩

theorem sound_colorStage : Stage.Sound ⟨colorPieces, id⟩ := by
  refine ⟨source_colorPieces, fun t p hp html hlabel _ _ _ => ?_⟩
  obtain ⟨digits, hold, htext, hdigits⟩ := exists_color_of_mem_colorPieces hp hlabel
  have hquiet : Quiet ('#' :: digits) := by
    have hnot : ∀ d, isHexDigit d = false → d ≠ '#' → d ∉ '#' :: digits := by
      intro d hd hhash hmem
      rcases List.mem_cons.mp hmem with hmem | hmem
      · exact hhash hmem
      · rw [hdigits d hmem] at hd
        cases hd
    exact ⟨hnot '<' (by decide) (by decide), hnot '"' (by decide) (by decide)⟩
  rw [htext, hold]
  exact (contained_colorPreview hquiet).trans (contained_of_not_mem hquiet.1).symm

theorem sound_stages (s : References) : ∀ g ∈ stages s, g.Sound := by
  intro g hg
  simp only [stages, List.mem_cons, List.not_mem_nil, or_false] at hg
  rcases hg with rfl | rfl | rfl | rfl | rfl | rfl | rfl
  · exact sound_linkStage
  · exact sound_fullReferenceStage s
  · exact sound_shortcutStage s
  · exact sound_urlStage
  · exact sound_mailStage
  · exact sound_footnoteStage s
  · exact sound_colorStage

end Inline

end Markdown
