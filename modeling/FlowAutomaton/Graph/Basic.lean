/-
The control flow automaton: a directed graph of states. The successors and the predecessors of a
vertex are kept at the vertex, so its state can be changed without touching an edge.
-/
import FlowAutomaton.Configuration
import FlowAutomaton.Graph.Vertices
import FlowAutomaton.InitialValue

namespace FlowAutomaton

/-- An automaton: its vertices, and the counter that numbers new ones. -/
structure Graph where
  vertices : Vertices := {}
  counter : Counter := {}
  deriving DecidableEq

namespace Graph

instance : Inhabited Graph := ⟨{}⟩

/-! ## Single changes -/

/-- An adjacency list with an id at its end, unless it is there already. -/
def insertAdjacent (ids : List StateId) (id : StateId) : List StateId :=
  if id ∈ ids then ids else ids ++ [id]

/-- An adjacency list without an id. -/
def removeAdjacent (ids : List StateId) (id : StateId) : List StateId := ids.filter (· ≠ id)

/-- Changes the successors of a vertex. -/
def mapSuccs (g : Graph) (id : StateId) (f : List StateId → List StateId) : Graph :=
  { g with vertices := g.vertices.modify id fun v => { v with succs := f v.succs } }

/-- Changes the predecessors of a vertex. -/
def mapPreds (g : Graph) (id : StateId) (f : List StateId → List StateId) : Graph :=
  { g with vertices := g.vertices.modify id fun v => { v with preds := f v.preds } }

/-- Changes the state of a vertex. -/
def mapState (g : Graph) (id : StateId) (f : State → State) : Graph :=
  { g with vertices := g.vertices.modify id fun v => { v with state := f v.state } }

/-- The vertex of an id, for an operation that needs it. -/
def lookup (g : Graph) (use : VertexUse) (id : StateId) : Except Fault Vertex :=
  match g.vertices.find? id with
  | some v => .ok v
  | none => .error (.notVertex use id)

/-- The vertex of an id. -/
def node (g : Graph) (id : StateId) : Except Fault Vertex := g.lookup .node id

/-! ## Building -/

/-- The vertex of an id, in an action that needs it. -/
def need (use : VertexUse) (id : StateId) : Action Graph Vertex := do
  let g ← Action.get
  Action.ofExcept (g.lookup use id)

/-- Stores a state as a vertex without edges; its id must be new. -/
def insert (s : State) : Action Graph Vertex := do
  let g ← Action.get
  if g.vertices.contains s.id then Action.fail (.alreadyVertex s.id)
  Action.modify fun g => { g with vertices := g.vertices.insertIfNew s.id { state := s } }
  pure { state := s }

/-- Starts an analysis: numbers states from the beginning and stores the root, whose value is the
initial value of the configuration. The automaton must be empty. -/
def start (ip : Address) (c : Configuration) : Action Graph Vertex := do
  let g ← Action.get
  if g.vertices.size ≠ 0 then Action.fail (.notEmpty g.vertices.size)
  let value ← InitialValue.ofConfiguration c
  Action.modify fun g => { g with counter := {} }
  let v ← insert
    { id := rootId, ip := ip, value := value, context := ⟨c.addressSize, c.operandSize⟩ }
  Action.log "cfa" ("root state " ++ v.state.label ++ "\n")
  pure v

/-- Stores a copy of a state, unless its id is that of a vertex, and answers with the vertex.
Ids that are issued later are greater than that of the state. -/
def add (s : State) : Action Graph Vertex := do
  let g ← Action.get
  match g.vertices.find? s.id with
  | some v => pure v
  | none =>
    Action.log "cfa" ("add " ++ s.label ++ "\n")
    Action.modify fun g => { g with counter := g.counter.observe s.id }
    insert s

/-- Stores a copy of a state under the next id, without edges. The id is used up even if it is
that of a vertex, which is an error. -/
def duplicate (s : State) : Action Graph Vertex := do
  Action.emit (.count "CFA.copy_state")
  let g ← Action.get
  Action.modify fun g => { g with counter := g.counter.advance }
  let v ← insert { s with id := g.counter.next }
  Action.log "cfa" ("copy " ++ s.label ++ " into " ++ v.state.label ++ "\n")
  pure v

/-! ## Edges -/

/-- Adds an edge between two vertices. -/
def link (src dst : StateId) : Action Graph Unit := do
  Action.emit (.count "CFA.add_successor")
  let s ← need .link src
  let d ← need .link dst
  Action.log "cfa" ("add edge " ++ s.state.label ++ " -> " ++ d.state.label ++ "\n")
  Action.modify fun g =>
    (g.mapSuccs src (insertAdjacent · d.state.id)).mapPreds dst (insertAdjacent · s.state.id)

/-- Removes an edge, if it is there. -/
def unlink (src dst : State) : Action Graph Unit := do
  let g ← Action.get
  if g.vertices.contains src.id && g.vertices.contains dst.id then
    Action.log "cfa" ("remove edge " ++ src.label ++ " -> " ++ dst.label ++ "\n")
    Action.modify fun g =>
      (g.mapSuccs src.id (removeAdjacent · dst.id)).mapPreds dst.id (removeAdjacent · src.id)

/-- Takes an id out of the successors of a vertex that is no longer to lead to it. -/
def forgetSucc (id p : StateId) : Action Graph Unit := do
  let _ ← need .remove p
  Action.modify (·.mapSuccs p (removeAdjacent · id))

/-- Takes an id out of the predecessors of a vertex that it no longer leads to. -/
def forgetPred (id n : StateId) : Action Graph Unit := do
  let _ ← need .remove n
  Action.modify (·.mapPreds n (removeAdjacent · id))

/-- Removes a vertex and the edges at it, if it is there. -/
def remove (s : State) : Action Graph Unit := do
  let g ← Action.get
  match g.vertices.find? s.id with
  | none => pure ()
  | some v =>
    Action.emit (.count "CFA.remove_state")
    Action.log "cfa" ("remove " ++ s.label ++ "\n")
    (v.preds.filter (· ≠ v.state.id)).forM (forgetSucc v.state.id)
    (v.succs.filter (· ≠ v.state.id)).forM (forgetPred v.state.id)
    Action.modify fun g => { g with vertices := g.vertices.erase s.id }

/-! ## Changes in place -/

/-- Changes a part of the state of a vertex. -/
def change (id : StateId) (c : State.Change) : Action Graph Unit := do
  let _ ← need .node id
  Action.modify (·.mapState id (·.change c))

/-- Replaces the whole state of a vertex. The vertex forgets its edges, its neighbours do
not. -/
def assign (id : StateId) (s : State) : Action Graph Unit := do
  let _ ← need .node id
  Action.modify fun g => { g with vertices := g.vertices.modify id fun _ => { state := s } }

end Graph

end FlowAutomaton
