/-
Sessions: a client works on configurations, automata and files, while diagnostics listen. A step
may be chosen by all that the client could have seen so far, and the run goes on after a step that
fails.

What a session does to the world is what its steps do on their own (`World.after`), and what is
shown and counted is what becomes of the events that they report on their own (`World.events`).
So neither an answer nor anything that is kept depends on which diagnostics are wanted.
-/
import FlowAutomaton.Checkpoint.File
import FlowAutomaton.Proofs.Configuration.History
import FlowAutomaton.Proofs.Graph.Call
import FlowAutomaton.Proofs.InitialValue.Heard
import Mathlib.Logic.Function.Basic

namespace FlowAutomaton

open FlowAutomaton.Action (Alike)

/-! ## The world -/

/-- What steps work on: configurations and automata by number, and the files of some file system. -/
structure World (σ : Type) where
  configurations : Nat → Configuration := fun _ => {}
  graphs : Nat → Graph := fun _ => {}
  storage : σ

/-- An action on a part of a state. -/
def Action.on {σ τ α : Type} (part : σ → τ) (put : σ → τ → σ) (x : Action τ α) : Action σ α :=
  fun s =>
    let o := x.run (part s)
    ⟨o.result, put s o.state, o.events⟩

theorem Action.Alike.on {σ τ α : Type} {d : Diagnostics} {x y : Action τ α} (h : Alike d x y)
    (part : σ → τ) (put : σ → τ → σ) : Alike d (x.on part put) (y.on part put) := by
  intro s
  simp only [Outcome.heard, Action.on, Action.run, Outcome.mk.injEq]
  exact ⟨h.result _, congrArg (put s) (h.state _), h.events _⟩

namespace World

variable {σ α : Type}

/-- An action on a configuration. -/
def onConfiguration (c : Nat) (x : Action Configuration α) : Action (World σ) α :=
  x.on (·.configurations c) fun w c' =>
    { w with configurations := Function.update w.configurations c c' }

/-- An action on an automaton. -/
def onGraph (g : Nat) (x : Action Graph α) : Action (World σ) α :=
  x.on (·.graphs g) fun w g' => { w with graphs := Function.update w.graphs g g' }

/-- An action on the files. -/
def onStorage (x : Action σ α) : Action (World σ) α :=
  x.on (·.storage) fun w st => { w with storage := st }

end World

/-! ## Steps -/

/-- The action of a call, with the diagnostics at hand. -/
def Graph.Call.actionTo (d : Diagnostics) : Graph.Call → Action Graph Graph.Answer
  | .update (.start ip c) => Answer.ofVertex <$> Graph.startTo d ip c
  | c => c.action

/-- A step of a client. -/
inductive Step where
  | configure (c : Nat) (s : Configuration.Step)
  | call (g : Nat) (c : Graph.Call)
  /-- Asks for the successors of a vertex, in order. -/
  | succs (g : Nat) (id : StateId)
  /-- Asks for the predecessors of a vertex, in order. -/
  | preds (g : Nat) (id : StateId)
  /-- Replaces the whole state of a vertex. -/
  | assign (g : Nat) (id : StateId) (s : State)
  | save (g : Nat) (path : String)
  /-- Reads an automaton, which takes the place of an earlier one. -/
  | load (g : Nat) (path : String)
  | print (g : Nat) (path : String) (loglevel : UInt32)

variable {σ : Type} [FileSystem σ]

open World in
/-- The action of a step, by the actions of calls. -/
def Step.action (call : Graph.Call → Action Graph Graph.Answer) :
    Step → Action (World σ) Graph.Answer
  | .configure c s => (fun _ => .done) <$> onConfiguration c s.action
  | .call g c => onGraph g (call c)
  | .succs g id => do
    let w ← Action.get
    Action.ofExcept (((w.graphs g).succs id).map .states)
  | .preds g id => do
    let w ← Action.get
    Action.ofExcept (((w.graphs g).preds id).map .states)
  | .assign g id s => (fun _ => .done) <$> onGraph g (Graph.assign id s)
  | .save g path => do
    let w ← Action.get
    onStorage (Checkpoint.save path (w.graphs g))
    pure .done
  | .load g path => do
    let restored ← onStorage (Checkpoint.load path)
    Action.modify fun w => { w with graphs := Function.update w.graphs g restored }
    pure .done
  | .print g path loglevel => do
    let w ← Action.get
    onStorage (Checkpoint.print path (w.graphs g) loglevel)
    pure .done

theorem Graph.Call.actionTo_alike (d : Diagnostics) (c : Graph.Call) :
    Alike d (c.actionTo d) c.action := by
  cases c with
  | query q => exact .refl _
  | update u =>
    cases u with
    | start ip c => exact (Graph.startTo_alike d ip c).map _
    | _ => exact .refl _

/-- Steps are alike if their calls are. -/
theorem Step.action_alike {d : Diagnostics} {f f' : Graph.Call → Action Graph Graph.Answer}
    (h : ∀ c, Alike d (f c) (f' c)) (s : Step) :
    Alike d (s.action f : Action (World σ) Graph.Answer) (s.action f') := by
  cases s with
  | call g c => exact (h c).on _ _
  | _ => exact .refl _

/-! ## Runs on their own -/

namespace World

/-- What a step does on its own. -/
def outcome (w : World σ) (step : World σ → Step) : Outcome (World σ) Graph.Answer :=
  ((step w).action Graph.Call.action).run w

/-- The world after some steps. -/
def after (w : World σ) (steps : List (World σ → Step)) : World σ :=
  steps.foldl (fun w s => (w.outcome s).state) w

/-- The answer or the failure of each step. -/
def answers (w : World σ) : List (World σ → Step) → List (Except Fault Graph.Answer)
  | [] => []
  | s :: ss => (w.outcome s).result :: answers (w.outcome s).state ss

/-- What is reported by some steps. -/
def events (w : World σ) : List (World σ → Step) → List Event
  | [] => []
  | s :: ss => (w.outcome s).events ++ events (w.outcome s).state ss

end World

/-! ## Sessions -/

/-- A world, and the diagnostics that listen to what happens in it. -/
structure Session (σ : Type) where
  world : World σ
  diagnostics : Diagnostics

namespace Session

/-- What a step does in a session. -/
def outcome (s : Session σ) (step : World σ → Step) : Outcome (World σ) Graph.Answer :=
  ((step s.world).action (Graph.Call.actionTo s.diagnostics)).run s.world

/-- The session after a step. -/
def next (s : Session σ) (step : World σ → Step) : Session σ :=
  ⟨(s.outcome step).state, s.diagnostics.recordAll (s.outcome step).events⟩

/-- The session after some steps. -/
def after (s : Session σ) (steps : List (World σ → Step)) : Session σ := steps.foldl next s

/-- The answer or the failure of each step. -/
def answers (s : Session σ) : List (World σ → Step) → List (Except Fault Graph.Answer)
  | [] => []
  | c :: cs => (s.outcome c).result :: answers (s.next c) cs

/-- In a session, a step does what it does on its own, as far as anyone can tell. -/
theorem outcome_alike (s : Session σ) (step : World σ → Step) :
    (s.outcome step).result = (s.world.outcome step).result ∧
      s.next step =
        ⟨(s.world.outcome step).state,
          s.diagnostics.recordAll (s.world.outcome step).events⟩ := by
  have h : Alike s.diagnostics
      ((step s.world).action (Graph.Call.actionTo s.diagnostics) : Action (World σ) Graph.Answer)
      ((step s.world).action Graph.Call.action) :=
    Step.action_alike (Graph.Call.actionTo_alike s.diagnostics) (step s.world)
  refine ⟨h.result s.world, ?_⟩
  rw [next, Session.mk.injEq]
  exact ⟨h.state s.world, h.recordAll s.world⟩

theorem answers_eq (s : Session σ) (steps : List (World σ → Step)) :
    s.answers steps = s.world.answers steps := by
  induction steps generalizing s with
  | nil => rfl
  | cons c cs ih =>
    obtain ⟨hresult, hnext⟩ := s.outcome_alike c
    rw [answers, World.answers, hresult, ih, hnext]

/-- What is left of a session: the world that the steps make on their own, and what becomes of the
events that they report. -/
theorem after_eq (s : Session σ) (steps : List (World σ → Step)) :
    s.after steps = ⟨s.world.after steps, s.diagnostics.recordAll (s.world.events steps)⟩ := by
  induction steps generalizing s with
  | nil => rfl
  | cons c cs ih =>
    have hnext := (s.outcome_alike c).2
    calc
      s.after (c :: cs) = (s.next c).after cs := rfl
      _ = ⟨(s.world.outcome c).state.after cs,
            (s.diagnostics.recordAll (s.world.outcome c).events).recordAll
              ((s.world.outcome c).state.events cs)⟩ := by rw [ih, hnext]
      _ = ⟨s.world.after (c :: cs), s.diagnostics.recordAll (s.world.events (c :: cs))⟩ := by
        rw [← Diagnostics.recordAll_append]
        rfl

/-- Whatever diagnostics are wanted, a client gets the same answers and failures from the same
steps, and the same configurations, automata, counters and files are left. The diagnostics stay as
they were set; only what was shown and counted may differ. -/
theorem diagnostics_irrelevant (w : World σ) (d d' : Diagnostics) (steps : List (World σ → Step)) :
    answers ⟨w, d⟩ steps = answers ⟨w, d'⟩ steps ∧
      (after ⟨w, d⟩ steps).world = (after ⟨w, d'⟩ steps).world ∧
      (after ⟨w, d⟩ steps).diagnostics.settings = d.settings := by
  refine ⟨?_, ?_, ?_⟩
  · rw [answers_eq, answers_eq]
  · rw [after_eq, after_eq]
  · rw [after_eq]
    exact d.settings_recordAll _

end Session

end FlowAutomaton
