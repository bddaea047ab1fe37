/-
The states that an analysis attaches to instructions, and the counter that numbers them. A state
is identified by its id alone; everything else about it may be changed.
-/
import FlowAutomaton.Statement
import FlowAutomaton.Value

namespace FlowAutomaton

/-! ## Ids -/

/-- The number of a state. -/
abbrev StateId := UInt64

/-- The id of the state where an analysis starts. -/
def rootId : StateId := 0

/-- The source of ids: it holds the last id that was issued, and wraps after 64 bits. -/
structure Counter where
  last : StateId := rootId
  deriving DecidableEq, Repr

namespace Counter

/-- The id that is issued next. -/
def next (c : Counter) : StateId := c.last + 1

/-- Issues an id. -/
def advance (c : Counter) : Counter := ⟨c.next⟩

/-- Makes the ids to come greater than an id. -/
def observe (c : Counter) (id : StateId) : Counter := if c.last < id then ⟨id⟩ else c

end Counter

/-! ## States -/

/-- The widths in bits with which instructions are decoded. -/
structure DecodingContext where
  addressSize : UInt32 := 0
  operandSize : UInt32 := 0
  deriving DecidableEq, Repr

/-- A state: an instruction with what the analysis knows before it. -/
structure State where
  id : StateId := rootId
  /-- The address of the instruction. -/
  ip : Address := {}
  value : Value := {}
  context : DecodingContext := {}
  /-- The statements of the instruction. -/
  statements : List Statement := []
  /-- Whether the value was widened. -/
  isFinal : Bool := false
  backLoop : Bool := false
  forwardLoop : Bool := false
  /-- Which branch of the predecessor was taken, if it has branches. -/
  branch : Option Bool := none
  /-- The encoded instruction. -/
  bytes : List UInt8 := []
  /-- Whether a destination of the statements may be tainted. -/
  isTainted : Bool := false
  deriving DecidableEq

namespace State

instance : Inhabited State := ⟨{}⟩

/-- The short form of a state in log lines. -/
def label (s : State) : String := "s" ++ toString s.id ++ "@" ++ s.ip.text

/-- The number of members of a set that holds two states. -/
def distinct (a b : State) : Nat := if a.id = b.id then 1 else 2

/-- A new content for a part of a state. No change touches the id. -/
inductive Change where
  | ip (address : Address)
  | value (value : Value)
  | context (context : DecodingContext)
  | statements (statements : List Statement)
  | push (statement : Statement)
  | isFinal (flag : Bool)
  | backLoop (flag : Bool)
  | forwardLoop (flag : Bool)
  | branch (taken : Option Bool)
  | bytes (bytes : List UInt8)
  | isTainted (flag : Bool)
  deriving DecidableEq

/-- A state with a change made. -/
def change (s : State) : Change → State
  | .ip a => { s with ip := a }
  | .value v => { s with value := v }
  | .context c => { s with context := c }
  | .statements l => { s with statements := l }
  | .push st => { s with statements := s.statements ++ [st] }
  | .isFinal b => { s with isFinal := b }
  | .backLoop b => { s with backLoop := b }
  | .forwardLoop b => { s with forwardLoop := b }
  | .branch b => { s with branch := b }
  | .bytes l => { s with bytes := l }
  | .isTainted b => { s with isTainted := b }

theorem id_change (s : State) (c : Change) : (s.change c).id = s.id := by cases c <;> rfl

end State

end FlowAutomaton
