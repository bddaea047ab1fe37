/-
Questions to an automaton. Lists of vertices and edges come in increasing order of ids,
neighbours in the order in which their edges were made.
-/
import FlowAutomaton.Graph.Basic

namespace FlowAutomaton.Graph

/-! ## The whole automaton -/

/-- The number of vertices. -/
def size (g : Graph) : Nat := g.vertices.size

/-- The number of edges, counted at their sources. -/
def numEdges (g : Graph) : Nat :=
  g.vertices.entries.foldl (fun n e => n + e.2.succs.length) 0

/-- Whether an id is that of a vertex. -/
def hasState (g : Graph) (id : StateId) : Bool := g.vertices.contains id

/-- Whether there is an edge, as its source knows it. -/
def hasEdge (g : Graph) (src dst : StateId) : Bool :=
  (g.vertices.find? src).any fun v => v.succs.contains dst

/-- The ids of the vertices, in increasing order. -/
def ids (g : Graph) : List StateId := g.vertices.keys.mergeSort (· ≤ ·)

/-- Whether an edge comes before another one or is the same: by source, then by target. -/
def edgeLE (a b : StateId × StateId) : Bool := a.1 < b.1 || (a.1 == b.1 && a.2 ≤ b.2)

/-- The edges, by source and then by target. -/
def edges (g : Graph) : List (StateId × StateId) :=
  (g.vertices.entries.flatMap fun e => e.2.succs.map (e.1, ·)).mergeSort edgeLE

/-- The states without successors, by id. -/
def sinks (g : Graph) : List State :=
  ((g.vertices.entries.filter fun e => e.2.succs.isEmpty).map fun e => e.2.state).mergeSort
    (·.id ≤ ·.id)

/-! ## Neighbours -/

/-- The states of the vertices that an adjacency list names. -/
def adjacent (g : Graph) (ids : List StateId) : Except Fault (List State) :=
  ids.mapM fun id => (g.lookup .adjacency id).map Vertex.state

/-- The successors of a vertex. -/
def succs (g : Graph) (id : StateId) : Except Fault (List State) := do
  let v ← g.lookup .succs id
  g.adjacent v.succs

/-- The predecessors of a vertex. -/
def preds (g : Graph) (id : StateId) : Except Fault (List State) := do
  let v ← g.lookup .preds id
  g.adjacent v.preds

/-- The only predecessor of a vertex, or why there is none. -/
def pred (s : State) : Action Graph (Except QueryFailure State) := do
  let v ← need .pred s.id
  match v.preds with
  | [] =>
    Action.log "cfa" ("no predecessor for " ++ s.label ++ "\n")
    pure (.error .noPredecessor)
  | [p] =>
    let u ← need .pred p
    pure (.ok u.state)
  | ps =>
    Action.log "cfa" (toString ps.length ++ " predecessors for " ++ s.label ++ "\n")
    pure (.error .multiplePredecessors)

/-! ## Places -/

/-- The later of a state and one that was found before. -/
def later (found : Option State) (s : State) : Option State :=
  match found with
  | none => some s
  | some t => if t.id < s.id then some s else some t

/-- The state of the greatest id at an address. -/
def latestAt (g : Graph) (ip : Address) : Option State :=
  ((g.vertices.entries.map fun e => e.2.state).filter (·.ip.same ip)).foldl later none

/-- The state of the greatest id at an address, or the answer that there is none. -/
def latest (ip : Address) : Action Graph (Except QueryFailure State) := do
  let g ← Action.get
  match g.latestAt ip with
  | some s => pure (.ok s)
  | none =>
    Action.log "cfa" ("no state at " ++ ip.text ++ "\n")
    pure (.error .notFound)

end FlowAutomaton.Graph
