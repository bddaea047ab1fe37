/-
Automata in files. A checkpoint holds the states by id, the edges by source and target, and the
last id that was issued. A file that does not take all of it is left with a part, and that is
reported. A checkpoint is read back by adding the states and edges one after the other, so
what has been added is reported even if the rest cannot be read; edges between states that are
not there and a counter below a stored id are refused.
-/
import FlowAutomaton.Checkpoint.Record
import FlowAutomaton.Checkpoint.Storage
import FlowAutomaton.Graph.Dump

namespace FlowAutomaton.Checkpoint

/-! ## Writing -/

/-- The states of an automaton, by id. -/
def states (g : Graph) : List State :=
  g.ids.filterMap fun id => (g.vertices.find? id).map Vertex.state

/-- The fields of a checkpoint. -/
def fields (g : Graph) : List Field :=
  write (states g) ++ write g.edges ++ write g.counter.last

variable {σ : Type} [FileSystem σ]

/-- Whether a checkpoint was written. A stream that fails stops the archive; otherwise it shows when
the file is closed. -/
def saved (path : String) : Progress → Except Fault Unit
  | .complete => .ok ()
  | .broken _ reason => .error (.cannotMarshal path reason)
  | .lost _ => .error (.writeFailed path)

/-- Writes a checkpoint to a file. Of a checkpoint that cannot be written to its end there is left
what the file has taken. -/
def save (path : String) (g : Graph) : Action σ Unit :=
  Action.timed "CFA.marshal" do
    let p ← FileSystem.write path (.checkpoint (fields g) 0)
    Action.ofExcept (saved path p)
    Action.log "cfa-io" ("marshaled " ++ toString (states g).length ++ " states and " ++
      toString g.edges.length ++ " edges into " ++ path ++ "\n")

/-- Whether a text was written, which shows when the file is closed. -/
def printed (path : String) : Progress → Except Fault Unit
  | .complete => .ok ()
  | _ => .error (.writeFailed path)

/-- Writes the text of an automaton to a file. Where the text ends for a failure, the file holds
what was written before it. -/
def print (path : String) (g : Graph) (loglevel : UInt32) : Action σ Unit := do
  let o := (g.write loglevel).run ""
  let p ← FileSystem.write path (.text o.state)
  Action.ofExcept o.result
  Action.ofExcept (printed path p)

/-! ## Reading -/

/-- Reads a value of a file, with the fields after it. -/
def next (path : String) (α : Type) [Storable α] (fs : List Field) :
    Action Graph (α × List Field) :=
  Action.ofExcept <|
    match (read : Reader α).run fs with
    | .ok r => .ok r
    | .error .incomplete => .error (.unreadable path)
    | .error (.invalid e) => .error e

/-- Reads and adds some states. -/
def restoreStates (path : String) : Nat → List Field → Action Graph (List Field)
  | 0, fs => pure fs
  | n + 1, fs => do
    let (s, fs) ← next path State fs
    let _ ← Graph.add s
    restoreStates path n fs

/-- Adds an edge between states that were read. -/
def restoreEdge (path : String) (e : StateId × StateId) : Action Graph Unit := do
  let g ← Action.get
  if g.hasState e.1 && g.hasState e.2 then Graph.link e.1 e.2
  else Action.fail (.danglingEdge path e.1 e.2)

/-- Reads and adds some edges. -/
def restoreEdges (path : String) : Nat → List Field → Action Graph (List Field)
  | 0, fs => pure fs
  | n + 1, fs => do
    let (e, fs) ← next path (StateId × StateId) fs
    restoreEdge path e
    restoreEdges path n fs

/-- Continues the numbering of the automaton that was stored. -/
def restoreCounter (path : String) (last : StateId) : Action Graph Unit := do
  let g ← Action.get
  match g.ids.getLast? with
  | some greatest =>
    if last < greatest then Action.fail (.staleCounter path last greatest)
  | none => pure ()
  Action.modify fun g => { g with counter := ⟨last⟩ }

/-- Adds what a checkpoint holds to an empty automaton. Fields after the counter are not
looked at. -/
def restore (path : String) (fs : List Field) : Action Graph Unit := do
  let (count, fs) ← next path Nat fs
  let fs ← restoreStates path count fs
  let (count, fs) ← next path Nat fs
  let fs ← restoreEdges path count fs
  let (last, _) ← next path StateId fs
  restoreCounter path last

/-- Reads the automaton of a file. -/
def load (path : String) : Action σ Graph :=
  Action.timed "CFA.unmarshal" do
    let st ← Action.get
    match ← Action.ofExcept (FileSystem.contents path st) with
    | .text _ => Action.fail (.unreadable path)
    | .checkpoint fs _ =>
      let g ← Action.build (restore path fs) {}
      Action.log "cfa-io" ("unmarshaled " ++ toString g.size ++ " states and " ++
        toString g.numEdges ++ " edges from " ++ path ++ "\n")
      pure g

end FlowAutomaton.Checkpoint
