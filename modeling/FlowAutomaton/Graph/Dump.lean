/-
The text of an automaton for human readers: its vertices by id, then its edges. It is written piece
by piece, so a statement without a text leaves what was written before it.
-/
import FlowAutomaton.Action
import FlowAutomaton.Graph.Query

namespace FlowAutomaton.Graph

/-- A byte as two hexadecimal digits. -/
def byteText (b : UInt8) : String :=
  String.ofList [Numeral.digitChar 16 (b.toNat / 16), Numeral.digitChar 16 (b.toNat % 16)]

/-- Writes at the end of a text. -/
def put (s : String) : Action String Unit := Action.modify (· ++ s)

/-- Writes a statement. -/
def writeStatement (t : Statement) : Action String Unit := do
  put " "
  put (← Action.ofExcept t.text)

/-- Writes the line of the statements of a state, which is shown above log level 2. -/
def writeStatements (loglevel : UInt32) (s : State) : Action String Unit :=
  if 2 < loglevel then do
    put "statements ="
    s.statements.forM writeStatement
    put "\n"
  else
    pure ()

/-- Writes the lines of a vertex. -/
def writeVertex (loglevel : UInt32) (id : StateId) (s : State) : Action String Unit := do
  put ("[node = " ++ toString id ++ "]\n" ++
    "address = " ++ s.ip.text ++ "\n" ++
    "bytes =" ++ String.join (s.bytes.map (" " ++ byteText ·)) ++ "\n" ++
    "final =" ++ Text.ofFlag s.isFinal ++ "\n" ++
    "tainted=" ++ Text.ofFlag s.isTainted ++ "\n" ++
    s.value.text)
  writeStatements loglevel s
  put "\n"

/-- The line of an edge. -/
def edgeLine (e : StateId × StateId) : String :=
  "e" ++ toString e.1 ++ "_" ++ toString e.2 ++ " = " ++ toString e.1 ++ " -> " ++
    toString e.2 ++ "\n"

/-- Writes an automaton. -/
def write (g : Graph) (loglevel : UInt32) : Action String Unit := do
  g.ids.forM fun id => do
    let v ← Action.ofExcept (g.node id)
    writeVertex loglevel id v.state
  put ("[edges]\n" ++ String.join (g.edges.map edgeLine))

/-- The text of an automaton. -/
def dump (g : Graph) (loglevel : UInt32) : Except Fault String :=
  let o := (g.write loglevel).run ""
  o.result.map fun _ => o.state

end FlowAutomaton.Graph
