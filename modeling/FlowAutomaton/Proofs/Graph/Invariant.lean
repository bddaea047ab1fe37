/-
Every automaton that calls can make is well-formed: after any calls on the empty automaton, in any
order and with any failures among them, a vertex is stored under the id of its state, no list of
neighbours names an id twice or names what is no vertex, and an edge is listed at both its ends.

One call keeps the automaton the same as a plain graph (`Represents.after`), and a run is calls one
after the other.
-/
import FlowAutomaton.Proofs.Graph.Digraph

namespace FlowAutomaton.Graph

/-! ## Questions -/

/-- No question changes an automaton. -/
theorem readOnly_query (q : Query) : Action.ReadOnly q.action := by
  cases q with
  | size => exact Action.ReadOnly.get.map _
  | numEdges => exact Action.ReadOnly.get.map _
  | lastId => exact Action.ReadOnly.get.map _
  | hasState id => exact Action.ReadOnly.get.map _
  | hasEdge src dst => exact Action.ReadOnly.get.map _
  | node id => exact Action.ReadOnly.get.bind fun _ => Action.ReadOnly.ofExcept _
  | ids => exact Action.ReadOnly.get.map _
  | edges => exact Action.ReadOnly.get.map _
  | sinks => exact Action.ReadOnly.get.map _
  | succs id => exact Action.ReadOnly.get.bind fun _ => Action.ReadOnly.ofExcept _
  | preds id => exact Action.ReadOnly.get.bind fun _ => Action.ReadOnly.ofExcept _
  | pred s => exact (readOnly_pred s).map _
  | latest ip => exact (readOnly_latest ip).map _
  | dump loglevel => exact Action.ReadOnly.get.bind fun _ => Action.ReadOnly.ofExcept _

/-! ## Runs -/

namespace Represents

variable {g : Graph} {d : Digraph}

theorem afterCall (h : Represents g d) (c : Call) :
    Represents (c.action.run g).state (d.afterCall c) := by
  cases c with
  | update u => exact h.after u
  | query q =>
    rw [show ((Call.query q).action.run g).state = g from readOnly_query q g]
    exact h

theorem afterAll (h : Represents g d) (us : List Update) :
    Represents (g.afterAll us) (us.foldl Digraph.after d) := by
  induction us generalizing g d with
  | nil => exact h
  | cons u us ih => exact ih (h.after u)

/-- Calls keep an automaton and a plain graph in step. -/
theorem afterCalls (h : Represents g d) (cs : List Call) :
    Represents (g.afterCalls cs) (cs.foldl Digraph.afterCall d) := by
  induction cs generalizing g d with
  | nil => exact h
  | cons c cs ih => exact ih (h.afterCall c)

end Represents

theorem WF.empty : WF {} := by
  refine ⟨?_, fun _ => List.nodup_nil, fun _ => List.nodup_nil, ?_, ?_, fun u w => ?_⟩
  · rintro id s ⟨⟩
  · rintro u w ⟨⟩
  · rintro w u ⟨⟩
  · constructor <;> rintro ⟨⟩

/-- An update keeps an automaton well-formed, also one that fails. -/
theorem WF.after {g : Graph} (h : g.WF) (u : Update) : (g.after u).WF := (h.represents.after u).wf

theorem WF.afterAll {g : Graph} (h : g.WF) (us : List Update) : (g.afterAll us).WF :=
  (h.represents.afterAll us).wf

theorem WF.afterCalls {g : Graph} (h : g.WF) (cs : List Call) : (g.afterCalls cs).WF :=
  (h.represents.afterCalls cs).wf

/-- Every automaton that is made from the empty one is well-formed, whatever the calls, their
order and their failures. -/
theorem wf_of_calls (cs : List Call) : (afterCalls {} cs).WF := WF.empty.afterCalls cs

end FlowAutomaton.Graph
