import Markdown.Processor

/-!
# Scopes restore the configuration

Programs that use the library set the active configuration, open scopes inside each other, catch
what breaks off, and convert texts; what they do next may depend on every answer. `Program.run`
runs one from a scope and notes, for each scope that is left on the way, what was active when it
was entered and what is active behind it.

A scope is entered by saving the active configuration and left by taking back what was saved last.
So it restores the right one only if its body leaves what is saved as it was, however it ends:
`run_saved`. It follows that all scopes of a run restore what was active (`restores_run`), and that
conversions, which open a scope around their work, leave everything as they found it
(`configuration_restored`).
-/

namespace Markdown

namespace Scope

/-- A computation that leaves what is saved as it was runs in a scope of its own as it does between
entering that scope and leaving it. -/
theorem leave?_of_saved {α : Type} {s : Scope} {c : Config} {f : Scope → α × Scope}
    (h : (f (s.enter c)).2.saved = (s.enter c).saved) :
    (f (s.enter c)).2.leave? = some (s.within c f).2 := by
  rw [leave?, h]
  rfl

end Scope

/-- Why a program breaks off. -/
inductive Break where
  /-- A call of the library has given no answer. -/
  | fault (f : Fault)
  /-- The program has raised an exception of its own. -/
  | raised (name : Text)
  deriving DecidableEq, Repr

/-- A program over the active configuration, with its result. -/
inductive Program : Type → Type 1 where
  /-- Nothing is done. -/
  | done {α : Type} (a : α) : Program α
  /-- The program breaks off. -/
  | stop {α : Type} (b : Break) : Program α
  /-- One program behind another, whose result it gets. -/
  | seq {α β : Type} (first : Program α) (next : α → Program β) : Program β
  /-- The active configuration. -/
  | active : Program Config
  /-- Makes a configuration active. -/
  | set (c : Config) : Program Unit
  /-- Makes the default configuration active. -/
  | reset : Program Unit
  /-- A program in a scope of its own. -/
  | within {α : Type} (c : Config) (body : Program α) : Program α
  /-- A program, and what is done if it breaks off. -/
  | attempt {α : Type} (body : Program α) (handler : Break → Program α) : Program α

/-- A scope that has been left. -/
structure Crossing where
  /-- What was active when it was entered. -/
  before : Config
  /-- What is active behind it. -/
  after : Config
  deriving DecidableEq, Repr

/-- A run of a program. -/
structure Run (α : Type) where
  /-- The result, or why there is none. -/
  outcome : Except Break α
  /-- The scope at the end. -/
  scope : Scope
  /-- The scopes that were left, in order. -/
  crossings : List Crossing

namespace Program

instance : Monad Program where
  pure := done
  bind := seq

/-- Runs a program. A scope is left whether its body has a result or breaks off. -/
def run {α : Type} : Program α → Scope → Run α
  | done a, s => ⟨.ok a, s, []⟩
  | stop b, s => ⟨.error b, s, []⟩
  | seq first next, s =>
    let r := first.run s
    match r.outcome with
    | .ok a =>
      let q := (next a).run r.scope
      ⟨q.outcome, q.scope, r.crossings ++ q.crossings⟩
    | .error b => ⟨.error b, r.scope, r.crossings⟩
  | active, s => ⟨.ok s.active, s, []⟩
  | set c, s => ⟨.ok (), s.set c, []⟩
  | reset, s => ⟨.ok (), s.reset, []⟩
  | within c body, s =>
    let r := body.run (s.enter c)
    let left := r.scope.leave?.getD r.scope
    ⟨r.outcome, left, r.crossings ++ [⟨s.active, left.active⟩]⟩
  | attempt body handler, s =>
    let r := body.run s
    match r.outcome with
    | .ok a => ⟨.ok a, r.scope, r.crossings⟩
    | .error b =>
      let q := (handler b).run r.scope
      ⟨q.outcome, q.scope, r.crossings ++ q.crossings⟩

/-- The answer of a computation of the library. -/
def ofReport {α : Type} (x : Report α) : Program α :=
  match x.answer with
  | .ok a => done a
  | .error f => stop (.fault f)

/-- Converts a value with a configuration, or with the active one if none is given. -/
def convert (c : Option Config) (r : Highlight.Registry) (s : References) (v : Json) :
    Program Text := do
  let outer ← active
  within (c.getD outer) do
    let inner ← active
    ofReport (renderMarkdown inner r s v).1

end Program

namespace Processor

/-- The call of a processor. -/
def call (p : Processor) (v : Json) : Program Text :=
  .convert (some p.config) p.registry .empty v

/-- The call that splits a value into blocks, with its definitions. -/
def callParse (p : Processor) (v : Json) : Program (List Block × References) :=
  .within p.config do
    let inner ← Program.active
    let split := Document.tokenizeValue inner v .empty
    Program.ofReport ((·, split.2) <$> split.1)

/-- The call that renders blocks. -/
def callRender (p : Processor) (bs : List Block) (definitions : References) : Program Text := do
  let outer ← Program.active
  Program.ofReport (p.render (Scope.initial.set outer) bs definitions)

end Processor

namespace Program

variable {α β : Type}

/-! ### What is saved -/

/-- What is saved is the same behind a program as in front of it, whether it has a result or breaks
off. -/
theorem run_saved (p : Program α) (s : Scope) : (p.run s).scope.saved = s.saved := by
  induction p generalizing s with
  | done | stop | active | set | reset => rfl
  | seq first next ihfirst ihnext =>
    rw [run]
    dsimp only
    split
    · next a _ => exact (ihnext a _).trans (ihfirst s)
    · exact ihfirst s
  | within c body ih =>
    -- Whatever the body has made active, leaving takes back what was saved on entering.
    have hbody : (body.run (s.enter c)).scope.saved = s.active :: s.saved := ih (s.enter c)
    rw [run]
    dsimp only
    rw [Scope.leave?, hbody]
    rfl
  | attempt body handler ihbody ihhandler =>
    rw [run]
    dsimp only
    split
    · exact ihbody s
    · next b _ => exact (ihhandler b _).trans (ihbody s)

/-! ### What is active -/

/-- Behind a scope everything is as it was in front of it, whatever its body does and however it
ends. -/
theorem run_within (c : Config) (body : Program α) (s : Scope) :
    (within c body).run s =
      ⟨(body.run (s.enter c)).outcome, s,
        (body.run (s.enter c)).crossings ++ [⟨s.active, s.active⟩]⟩ := by
  have hleave : (body.run (s.enter c)).scope.leave? = some s :=
    Scope.leave?_of_saved (f := fun t => ((body.run t).outcome, (body.run t).scope))
      (body.run_saved (s.enter c))
  rw [run, hleave]
  rfl

/-- All scopes that a run leaves restore what was active. -/
theorem restores_run (p : Program α) (s : Scope) :
    ∀ x ∈ (p.run s).crossings, x.after = x.before := by
  induction p generalizing s with
  | done | stop | active | set | reset => exact fun _ hx => nomatch hx
  | seq first next ihfirst ihnext =>
    rw [run]
    dsimp only
    split
    · next a _ => exact List.forall_mem_append.mpr ⟨ihfirst s, ihnext a _⟩
    · exact ihfirst s
  | within c body ih =>
    rw [run_within]
    exact List.forall_mem_append.mpr ⟨ih (s.enter c), List.forall_mem_singleton.mpr rfl⟩
  | attempt body handler ihbody ihhandler =>
    rw [run]
    dsimp only
    split
    · exact ihbody s
    · next b _ => exact List.forall_mem_append.mpr ⟨ihbody s, ihhandler b _⟩

/-! ### Conversions -/

theorem run_ofReport (x : Report α) (s : Scope) :
    (ofReport x).run s = ⟨x.answer.mapError .fault, s, []⟩ := by
  unfold ofReport
  cases x.answer <;> rfl

theorem run_active_bind (next : Config → Program α) (s : Scope) :
    (active >>= next).run s = (next s.active).run s := by
  show (active.seq next).run s = _
  rw [run, run]
  rfl

/-- A conversion answers for the configuration that it is given, or for the active one. -/
theorem run_convert (c : Option Config) (r : Highlight.Registry) (t : References) (v : Json)
    (s : Scope) :
    (convert c r t v).run s =
      ⟨(renderMarkdown (c.getD s.active) r t v).1.answer.mapError .fault, s,
        [⟨s.active, s.active⟩]⟩ := by
  rw [convert, run_active_bind, run_within, run_active_bind, run_ofReport]
  rfl

end Program

namespace Processor

open Program

variable (p : Processor) (s : Scope)

/-- The call of a processor is its conversion. -/
theorem run_call (v : Json) :
    (p.call v).run s =
      ⟨(p.convert s v).1.answer.mapError .fault, (p.convert s v).2, [⟨s.active, s.active⟩]⟩ :=
  run_convert (some p.config) p.registry .empty v s

theorem run_callParse (v : Json) :
    (p.callParse v).run s =
      ⟨((·, (p.parse s v).1.2) <$> (p.parse s v).1.1).answer.mapError .fault, (p.parse s v).2,
        [⟨s.active, s.active⟩]⟩ := by
  rw [callParse, run_within, run_active_bind, run_ofReport]
  rfl

theorem run_callRender (bs : List Block) (definitions : References) :
    (p.callRender bs definitions).run s =
      ⟨(p.render s bs definitions).answer.mapError .fault, s, []⟩ := by
  rw [callRender, run_active_bind, run_ofReport]
  rfl

end Processor

namespace Program

/-- **Scopes restore the configuration.** In every run of a program, each scope that is left, at any
depth and for any reason, restores the configuration that was active when it was entered. A scope
around the program leaves everything as it found it, and so does every conversion and every call of
a processor, with an answer or without one. -/
theorem configuration_restored {α : Type} (p : Program α) (s : Scope) :
    (∀ x ∈ (p.run s).crossings, x.after = x.before) ∧
    (∀ c, ((within c p).run s).scope = s) ∧
    (∀ c r t v, ((convert c r t v).run s).scope = s) ∧
    ∀ q : Processor, (∀ v, ((q.call v).run s).scope = s) ∧
      (∀ v, ((q.callParse v).run s).scope = s) ∧
      ∀ bs definitions, ((q.callRender bs definitions).run s).scope = s := by
  refine ⟨restores_run p s, fun c => ?_, fun c r t v => ?_, fun q => ⟨fun v => ?_, fun v => ?_, ?_⟩⟩
  · rw [run_within]
  · rw [run_convert]
  · rw [Processor.run_call]
    rfl
  · rw [Processor.run_callParse]
    rfl
  · intro bs definitions
    rw [Processor.run_callRender]

/-- Two scopes in which other configurations are made active are left at once, because a value that
is no text is converted inside them. -/
theorem configuration_restored_unwound :
    let outer : Config := ⟨true, true, true, true⟩
    let p : Program Text := attempt
      (do
        set outer
        within ⟨false, true, false, false⟩ do
          set ⟨false, false, false, false⟩
          within ⟨true, false, true, false⟩ do
            reset
            convert none .builtin .empty (.bool true))
      fun _ => done []
    let r := p.run .initial
    r.scope = ⟨outer, []⟩ ∧
      r.crossings = [⟨{}, {}⟩, ⟨⟨false, false, false, false⟩, ⟨false, false, false, false⟩⟩,
        ⟨outer, outer⟩] ∧
      ∀ x ∈ r.crossings, x.after = x.before :=
  ⟨by decide +kernel, by decide +kernel, (configuration_restored _ .initial).1⟩

end Program

end Markdown
