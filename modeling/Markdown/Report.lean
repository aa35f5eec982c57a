import Markdown.Fault

/-!
# Reports

A computation of this library always has a value. What it notes on the way, such as a line for
the log or a fault, stands beside the value in a list. The first fault decides whether a caller
gets the value, so the functions stay total and their values can be reasoned about on their own:
`value_bind` says that notes never change a value.
-/

namespace Markdown

/-- The two formats that are recognised without a fence. -/
inductive DataFormat where
  /-- A JSON object or array. -/
  | json
  /-- A YAML mapping or sequence. -/
  | yaml
  deriving DecidableEq, Repr

/-- The parts of the library that keep a log. -/
inductive Channel where
  /-- The block tokenizer. -/
  | blocks
  /-- The recognition of unfenced data. -/
  | structuredData
  /-- The HTML renderer. -/
  | renderer
  /-- The table of highlighters. -/
  | highlighters
  /-- The recognition of JSON inside strings. -/
  | nestedJson
  /-- The conversion of HTML elements. -/
  | elements
  deriving DecidableEq, Repr

/-- An entry of the log. -/
inductive LogEntry where
  /-- A text has been split into blocks. -/
  | tokenized (blocks linkReferences footnotes : Nat)
  /-- Unfenced data has been recognised at a line. -/
  | detected (format : DataFormat) (line count : Nat)
  /-- The section of footnotes is written. -/
  | renderingFootnotes (count : Nat)
  /-- A language has no highlighter. -/
  | noHighlighter (language : Option Text)
  /-- A candidate for nested JSON is too long to be read. -/
  | oversizedCandidate (length : Nat)
  /-- An element has no conversion of its own. -/
  | noConverter (tag : Text)
  deriving DecidableEq, Repr

/-- The full name of a log whose root has the given name; a name that is already full stays. -/
def Channel.fullName (root name : Text) : Text :=
  if name == root || Text.startsWith name (root ++ ['.']) then name else root ++ '.' :: name

namespace LogEntry

/-- The part of the library that writes an entry. -/
def channel : LogEntry → Channel
  | .tokenized .. => .blocks
  | .detected .. => .structuredData
  | .renderingFootnotes _ => .renderer
  | .noHighlighter _ => .highlighters
  | .oversizedCandidate _ => .nestedJson
  | .noConverter _ => .elements

/-- The text of an entry. -/
def message : LogEntry → Text
  | .tokenized b l f =>
    "Tokenized ".toList ++ Text.ofNat b ++ " blocks (".toList ++ Text.ofNat l ++
      " link refs, ".toList ++ Text.ofNat f ++ " footnotes)".toList
  | .detected format line count =>
    let name := match format with
      | .json => "JSON".toList
      | .yaml => "YAML".toList
    "Detected ".toList ++ name ++ " block at line ".toList ++ Text.ofNat line ++ " (".toList ++
      Text.ofNat count ++ " lines)".toList
  | .renderingFootnotes n => "Rendering ".toList ++ Text.ofNat n ++ " footnotes".toList
  | .noHighlighter language =>
    let name := match language with
      | some l => Text.quoted l
      | none => "None".toList
    "No highlighter for ".toList ++ name ++ ", escaping as text".toList
  | .oversizedCandidate n =>
    "Skipping nested JSON candidate of ".toList ++ Text.ofNat n ++ " characters".toList
  | .noConverter tag =>
    "No converter for <".toList ++ tag ++ ">, converting its children".toList

end LogEntry

/-- Something that a computation notes beside its value. -/
inductive Note where
  /-- A line for the log. -/
  | logged (entry : LogEntry)
  /-- A fault: no answer is given. -/
  | failed (fault : Fault)
  /-- An element has been shown to the hook for custom elements. -/
  | visited (tag : Text)
  /-- The predicate for nested JSON has been asked about an identifier. -/
  | asked (id : Text)
  deriving DecidableEq, Repr

/-- A value with the notes made while it was computed, the earliest first. -/
structure Report (α : Type) where
  /-- The value. -/
  value : α
  /-- The notes. -/
  notes : List Note
  deriving Repr

namespace Report

variable {α β : Type}

/-- A value without notes. -/
protected def pure (a : α) : Report α :=
  ⟨a, []⟩

/-- One computation after another: the notes are put together in order. -/
protected def bind (x : Report α) (f : α → Report β) : Report β :=
  ⟨(f x.value).value, x.notes ++ (f x.value).notes⟩

instance : Monad Report where
  pure := Report.pure
  bind := Report.bind

@[simp] theorem value_pure (a : α) : (pure a : Report α).value = a := rfl

@[simp] theorem notes_pure (a : α) : (pure a : Report α).notes = [] := rfl

@[simp] theorem value_bind (x : Report α) (f : α → Report β) :
    (x >>= f).value = (f x.value).value := rfl

@[simp] theorem notes_bind (x : Report α) (f : α → Report β) :
    (x >>= f).notes = x.notes ++ (f x.value).notes := rfl

@[simp] theorem value_map (f : α → β) (x : Report α) : (f <$> x).value = f x.value := rfl

@[simp] theorem notes_map (f : α → β) (x : Report α) : (f <$> x).notes = x.notes := by
  show x.notes ++ [] = x.notes
  simp

instance : LawfulMonad Report :=
  LawfulMonad.mk' Report
    (fun x => by simp [Functor.map, Report.bind, Report.pure])
    (fun a f => by simp [Bind.bind, Pure.pure, Report.bind, Report.pure])
    (fun x f g => by simp [Bind.bind, Report.bind, List.append_assoc])

/-- What comes second matters at the value of the first only. -/
theorem bind_congr {x : Report α} {f g : α → Report β} (h : f x.value = g x.value) :
    x >>= f = x >>= g :=
  congrArg (fun y : Report β => (⟨y.value, x.notes ++ y.notes⟩ : Report β)) h

@[simp] theorem value_mapM (f : α → Report β) (l : List α) :
    (l.mapM f).value = l.map fun a => (f a).value := by
  induction l with
  | nil => simp
  | cons a l ih => simp [ih]

@[simp] theorem notes_mapM (f : α → Report β) (l : List α) :
    (l.mapM f).notes = l.flatMap fun a => (f a).notes := by
  induction l with
  | nil => simp
  | cons a l ih => simp [ih]

theorem mapM_eq_pure {f : α → Report β} {g : α → β} {l : List α}
    (h : ∀ a ∈ l, f a = pure (g a)) : l.mapM f = pure (l.map g) := by
  induction l with
  | nil => rfl
  | cons a l ih =>
    rw [List.mapM_cons, h a List.mem_cons_self, pure_bind,
      ih fun b hb => h b (List.mem_cons_of_mem a hb), pure_bind, List.map_cons]

/-- A single note. -/
def note (n : Note) : Report Unit :=
  ⟨(), [n]⟩

/-- A line for the log. -/
def log (e : LogEntry) : Report Unit :=
  note (.logged e)

/-- A fault. -/
def fail (f : Fault) : Report Unit :=
  note (.failed f)

/-- The first fault among some notes. -/
def firstFault (ns : List Note) : Option Fault :=
  ns.findSome? fun
    | .failed f => some f
    | _ => none

/-- The notes made before the first fault. -/
def untilFault (ns : List Note) : List Note :=
  ns.takeWhile fun
    | .failed _ => false
    | _ => true

/-- The answer that a caller gets: the value, or the first fault. -/
def answer (x : Report α) : Except Fault α :=
  match firstFault x.notes with
  | some f => .error f
  | none => .ok x.value

theorem firstFault_append (ns ms : List Note) :
    firstFault (ns ++ ms) = (firstFault ns).or (firstFault ms) :=
  List.findSome?_append

@[simp] theorem answer_pure (a : α) : (pure a : Report α).answer = pure a := rfl

/-- The answers come one after another as the computations do. -/
theorem answer_bind (x : Report α) (f : α → Report β) :
    (x >>= f).answer = (do
      let a ← x.answer
      (f a).answer) := by
  simp only [answer, notes_bind, firstFault_append, value_bind]
  cases firstFault x.notes <;> rfl

/-- Behind an answer, the rest decides. -/
theorem answer_bind_of_ok {x : Report α} {a : α} (h : x.answer = .ok a) (f : α → Report β) :
    (x >>= f).answer = (f a).answer := by
  rw [answer_bind, h]
  rfl

theorem answer_mapM_of_ok {f : α → Report β} {g : α → β} {l : List α}
    (h : ∀ a ∈ l, (f a).answer = .ok (g a)) : (l.mapM f).answer = .ok (l.map g) := by
  induction l with
  | nil => rfl
  | cons a l ih =>
    rw [List.mapM_cons, answer_bind_of_ok (h a List.mem_cons_self),
      answer_bind_of_ok (ih fun b hb => h b (List.mem_cons_of_mem a hb))]
    rfl

/-- The log that a caller sees. -/
def entries (x : Report α) : List LogEntry :=
  (untilFault x.notes).filterMap fun
    | .logged e => some e
    | _ => none

/-- The names of the elements shown to the hook, in order. -/
def visits (x : Report α) : List Text :=
  (untilFault x.notes).filterMap fun
    | .visited t => some t
    | _ => none

/-- The identifiers about which the predicate was asked, in order. -/
def questions (x : Report α) : List Text :=
  (untilFault x.notes).filterMap fun
    | .asked i => some i
    | _ => none

end Report

end Markdown
