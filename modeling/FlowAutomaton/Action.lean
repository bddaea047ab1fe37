/-
Operations with effects. An action works on a state, may fail, and reports what happens as a list
of events. It never sees who listens: whether an event is shown or counted is decided afterwards,
so no answer of an action can depend on it. A failed action keeps what it did before it failed.
-/
import FlowAutomaton.Fault

namespace FlowAutomaton

/-- What an operation reports while it runs. -/
inductive Event where
  /-- Text for those who follow a tag. -/
  | log (tag text : String)
  /-- A warning, with its line end unless it could not be finished. -/
  | warning (text : String)
  /-- One more of what is counted under a name. -/
  | count (name : String)
  /-- The start of a timed section, which is counted too. -/
  | enter (name : String)
  /-- The end of a timed section. -/
  | leave (name : String)
  deriving DecidableEq, Repr

/-- How an action ended: its answer or the cause of its failure, the state it left, and the
events that it reported, oldest first. -/
structure Outcome (σ α : Type) where
  result : Except Fault α
  state : σ
  events : List Event

/-- An operation on a state of type `σ` with an answer of type `α`. -/
def Action (σ α : Type) : Type := σ → Outcome σ α

namespace Action

variable {σ τ α β : Type}

/-- Runs an action. -/
def run (x : Action σ α) (s : σ) : Outcome σ α := x s

/-- The action that answers at once. -/
protected def pure (a : α) : Action σ α := fun s => ⟨.ok a, s, []⟩

/-- One action after another, unless the first one fails. -/
protected def bind (x : Action σ α) (f : α → Action σ β) : Action σ β := fun s =>
  let o := x s
  match o.result with
  | .ok a =>
    let p := f a o.state
    ⟨p.result, p.state, o.events ++ p.events⟩
  | .error e => ⟨.error e, o.state, o.events⟩

instance : Monad (Action σ) where
  pure := Action.pure
  bind := Action.bind

/-- The current state. -/
def get : Action σ σ := fun s => ⟨.ok s, s, []⟩

/-- Changes the state. -/
def modify (f : σ → σ) : Action σ Unit := fun s => ⟨.ok (), f s, []⟩

/-- Changes the state by a function that may fail, and then leaves it as it is. -/
def tryModify (f : σ → Except Fault σ) : Action σ Unit := fun s =>
  match f s with
  | .ok s' => ⟨.ok (), s', []⟩
  | .error e => ⟨.error e, s, []⟩

/-- Fails. -/
def fail (e : Fault) : Action σ α := fun s => ⟨.error e, s, []⟩

/-- Answers as a function did. -/
def ofExcept (r : Except Fault α) : Action σ α := fun s => ⟨r, s, []⟩

/-- Reports an event. -/
def emit (e : Event) : Action σ Unit := fun s => ⟨.ok (), s, [e]⟩

/-- Reports the text of a log line. -/
def log (tag text : String) : Action σ Unit := emit (.log tag text)

/-- Runs an action as a timed section, which ends however the action ends. -/
def timed (name : String) (x : Action σ α) : Action σ α := fun s =>
  let o := x s
  ⟨o.result, o.state, .enter name :: o.events ++ [.leave name]⟩

/-- Runs an action on a state of its own and answers with the state that it left. -/
def build (x : Action τ Unit) (start : τ) : Action σ τ := fun s =>
  let o := x start
  ⟨o.result.map fun _ => o.state, s, o.events⟩

/-! ## Running -/

@[simp] theorem run_pure (a : α) (s : σ) : (pure a : Action σ α).run s = ⟨.ok a, s, []⟩ := rfl

@[simp] theorem run_get (s : σ) : (get : Action σ σ).run s = ⟨.ok s, s, []⟩ := rfl

@[simp] theorem run_modify (f : σ → σ) (s : σ) : (modify f).run s = ⟨.ok (), f s, []⟩ := rfl

@[simp] theorem run_fail (e : Fault) (s : σ) :
    (fail e : Action σ α).run s = ⟨.error e, s, []⟩ := rfl

@[simp] theorem run_ofExcept (r : Except Fault α) (s : σ) :
    (ofExcept r : Action σ α).run s = ⟨r, s, []⟩ := rfl

@[simp] theorem run_emit (e : Event) (s : σ) : (emit e).run s = ⟨.ok (), s, [e]⟩ := rfl

@[simp] theorem run_log (tag text : String) (s : σ) :
    (log tag text).run s = ⟨.ok (), s, [.log tag text]⟩ := rfl

/-- A timed section does what its action does, between its start and its end. -/
theorem run_timed (name : String) (x : Action σ α) (s : σ) :
    (timed name x).run s =
      ⟨(x.run s).result, (x.run s).state, .enter name :: (x.run s).events ++ [.leave name]⟩ := rfl

/-- After an answer the second action runs where the first one stopped. -/
theorem run_bind_ok {x : Action σ α} {f : α → Action σ β} {s : σ} {a : α}
    (h : (x.run s).result = .ok a) :
    (x >>= f).run s =
      ⟨((f a).run (x.run s).state).result, ((f a).run (x.run s).state).state,
        (x.run s).events ++ ((f a).run (x.run s).state).events⟩ := by
  change Action.bind x f s = _
  simp only [run] at h
  simp only [Action.bind, run, h]

/-- After a failure the second action does not run, and what the first one did stays. -/
theorem run_bind_error {x : Action σ α} {f : α → Action σ β} {s : σ} {e : Fault}
    (h : (x.run s).result = .error e) :
    (x >>= f).run s = ⟨.error e, (x.run s).state, (x.run s).events⟩ := by
  change Action.bind x f s = _
  simp only [run] at h
  simp only [Action.bind, run, h]

/-- An answer of two actions in a row is that of the second after an answer of the first. -/
theorem bind_eq_ok_iff {x : Action σ α} {f : α → Action σ β} {s : σ} {b : β} :
    ((x >>= f).run s).result = .ok b ↔
      ∃ a, (x.run s).result = .ok a ∧ ((f a).run (x.run s).state).result = .ok b := by
  cases h : (x.run s).result with
  | ok a => rw [run_bind_ok h]; simp
  | error e => rw [run_bind_error h]; simp

instance : LawfulMonad (Action σ) :=
  LawfulMonad.mk' (Action σ)
    (fun x => by
      funext s
      change Action.bind x (fun a => Action.pure a) s = x s
      unfold Action.bind Action.pure
      rcases h : x s with ⟨r, s', es⟩
      cases r <;> simp)
    (fun a f => by
      funext s
      change Action.bind (Action.pure a) f s = f a s
      simp [Action.bind, Action.pure])
    (fun x f g => by
      funext s
      change Action.bind (Action.bind x f) g s = Action.bind x (fun a => Action.bind (f a) g) s
      unfold Action.bind
      rcases h : x s with ⟨r, s', es⟩
      cases r with
      | error e => simp
      | ok a =>
        simp only
        rcases h' : f a s' with ⟨r', s'', es'⟩
        cases r' <;> simp [List.append_assoc])

end Action

end FlowAutomaton
