/-
The calls on an automaton as data: updates, which may change it, and questions, which do not. A
run makes one call after another; a call that fails leaves the automaton as it left it, and the
run goes on.
-/
import FlowAutomaton.Graph.Dump
import FlowAutomaton.Proofs.Action
import Mathlib.Data.Multiset.Basic

namespace FlowAutomaton.Graph

/-! ## Answers -/

/-- What a call answers. Of a vertex its state and the numbers of its neighbours can be seen. The
neighbours of a vertex are told in no order. -/
inductive Answer where
  | done
  | flag (b : Bool)
  | number (n : Nat)
  | id (id : StateId)
  | vertex (s : State) (inDegree outDegree : Nat)
  | ids (l : List StateId)
  | edges (l : List (StateId × StateId))
  | states (l : List State)
  | neighbours (states : Multiset State)
  | found (r : Except QueryFailure State)
  | text (s : String)

/-- What can be seen of a vertex. -/
def Answer.ofVertex (v : Vertex) : Answer := .vertex v.state v.preds.length v.succs.length

/-! ## Updates -/

/-- A call that may change the automaton: an operation on it, a change of a vertex in place, or a
use of its counter. -/
inductive Update where
  | start (ip : Address) (c : Configuration)
  | add (s : State)
  | remove (s : State)
  | link (src dst : StateId)
  | unlink (src dst : State)
  | duplicate (s : State)
  | change (id : StateId) (c : State.Change)
  /-- Issues an id. -/
  | issue
  /-- Makes the ids to come greater than an id. -/
  | observe (id : StateId)
  /-- Starts the numbering again after an id. -/
  | reset (last : StateId)

/-- The action of an update. -/
def Update.action : Update → Action Graph Answer
  | start ip c => Answer.ofVertex <$> Graph.start ip c
  | add s => Answer.ofVertex <$> Graph.add s
  | remove s => (fun _ => .done) <$> Graph.remove s
  | link src dst => (fun _ => .done) <$> Graph.link src dst
  | unlink src dst => (fun _ => .done) <$> Graph.unlink src dst
  | duplicate s => Answer.ofVertex <$> Graph.duplicate s
  | change id c => (fun _ => .done) <$> Graph.change id c
  | issue => do
    Action.modify fun g => { g with counter := g.counter.advance }
    let g ← Action.get
    pure (.id g.counter.last)
  | observe id => do
    Action.modify fun g => { g with counter := g.counter.observe id }
    pure .done
  | reset last => do
    Action.modify fun g => { g with counter := ⟨last⟩ }
    pure .done

/-- The automaton after an update, also after one that failed. -/
def after (g : Graph) (u : Update) : Graph := (u.action.run g).state

/-- The automaton after some updates, one after the other. -/
def afterAll (g : Graph) (us : List Update) : Graph := us.foldl after g

/-! ## Questions -/

/-- A call that asks the automaton. -/
inductive Query where
  | size
  | numEdges
  | lastId
  | hasState (id : StateId)
  | hasEdge (src dst : StateId)
  | node (id : StateId)
  | ids
  | edges
  | sinks
  | succs (id : StateId)
  | preds (id : StateId)
  | pred (s : State)
  | latest (ip : Address)
  | dump (loglevel : UInt32)

/-- The action of a question. -/
def Query.action : Query → Action Graph Answer
  | size => (fun g => .number g.size) <$> Action.get
  | numEdges => (fun g => .number g.numEdges) <$> Action.get
  | lastId => (fun g => .id g.counter.last) <$> Action.get
  | hasState id => (fun g => .flag (g.hasState id)) <$> Action.get
  | hasEdge src dst => (fun g => .flag (g.hasEdge src dst)) <$> Action.get
  | node id => do
    let g ← Action.get
    Action.ofExcept ((g.node id).map .ofVertex)
  | ids => (fun g => .ids g.ids) <$> Action.get
  | edges => (fun g => .edges g.edges) <$> Action.get
  | sinks => (fun g => .states g.sinks) <$> Action.get
  | succs id => do
    let g ← Action.get
    Action.ofExcept ((g.succs id).map (.neighbours ·))
  | preds id => do
    let g ← Action.get
    Action.ofExcept ((g.preds id).map (.neighbours ·))
  | pred s => .found <$> Graph.pred s
  | latest ip => .found <$> Graph.latest ip
  | dump loglevel => do
    let g ← Action.get
    Action.ofExcept ((g.dump loglevel).map .text)

/-! ## Runs -/

/-- A call on an automaton. -/
inductive Call where
  | update (u : Update)
  | query (q : Query)

/-- The action of a call. -/
def Call.action : Call → Action Graph Answer
  | update u => u.action
  | query q => q.action

/-- The automaton after some calls, one after the other. -/
def afterCalls (g : Graph) (cs : List Call) : Graph :=
  cs.foldl (fun g c => (c.action.run g).state) g

/-- What is seen of some calls: the answer or the failure of each, and what it reports. -/
def trace (g : Graph) : List Call → List (Except Fault Answer × List Event)
  | [] => []
  | c :: cs => c.action.seen g :: trace (c.action.run g).state cs

end FlowAutomaton.Graph
