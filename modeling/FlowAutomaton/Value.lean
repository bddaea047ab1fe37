/-
Abstract values: what is known of the content and the taint of each register and of each
initialised stretch of memory. A cell holds what was written last.
-/
import FlowAutomaton.Action
import FlowAutomaton.Address
import FlowAutomaton.Initializer
import FlowAutomaton.Table

namespace FlowAutomaton

/-- What is known of a register: its width, the region its content points to, its content unless
it is unknown, and its taint unless it is untainted. -/
structure RegisterCell where
  width : UInt32
  region : Region := .global
  content : Option Content := none
  taint : Option Taint := none
  deriving DecidableEq

/-- What is known of a stretch of memory. -/
structure MemoryCell where
  count : UInt32
  content : Content
  taint : Option Taint
  deriving DecidableEq

/-- A stretch of memory as the place where it starts, with its region, and how often its content
is repeated. -/
structure Location where
  address : Address
  count : UInt32
  deriving DecidableEq

/-- Locations by address, then by count. -/
instance : Ord Location :=
  ⟨compareLex (compareOn fun l => l.address) (compareOn fun l => l.count)⟩

instance : Std.TransOrd Location :=
  inferInstanceAs
    (Std.TransCmp
      (compareLex (compareOn fun l : Location => l.address) (compareOn fun l => l.count)))

/-- An abstract value. -/
structure Value where
  registers : Table String RegisterCell := {}
  memory : Table Location MemoryCell := {}
  deriving DecidableEq

namespace Value

instance : Inhabited Value := ⟨{}⟩

/-! ## Updates -/

/-- Adds a register of which nothing is known, in place of an earlier one of its name. -/
def addRegister (v : Value) (r : Register) : Value :=
  { v with registers := v.registers.insert r.name { width := r.width } }

/-- Writes a register that was added. -/
def setRegister (v : Value) (name : String) (region : Region) (i : Initializer) :
    Except Fault Value :=
  match v.registers.find? name with
  | none => .error (.registerNotAdded name)
  | some cell =>
    if i.content.isBytes then .error (.bytesForRegister name)
    else
      let cell := { cell with region := region, content := some i.content, taint := i.taint }
      .ok { v with registers := v.registers.insert name cell }

/-- Writes a stretch of memory. -/
def setMemory (v : Value) (l : Location) (i : Initializer) : Value :=
  { v with memory := v.memory.insert l ⟨l.count, i.content, i.taint⟩ }

/-- Writes a stretch of memory that was asked for in a region. A region other than that of the
address gets a warning only. Where warnings are printed, one about a region without a name breaks
off, and nothing is written. -/
def requestMemory (warnings : Bool) (l : Location) (region : Region) (i : Initializer) :
    Action Value Unit := do
  if l.address.region ≠ region then
    let start := "memory init at " ++ l.address.text ++ " requested in region "
    match region.name with
    | .ok name => Action.emit (.warning (start ++ name ++ "\n"))
    | .error e =>
      Action.emit (.warning start)
      if warnings then Action.fail e
  Action.modify (·.setMemory l i)

/-! ## Queries -/

/-- Whether a register was added. -/
def hasRegister (v : Value) (name : String) : Bool := v.registers.contains name

/-- The cell of a register. -/
def register (v : Value) (name : String) : Except Fault RegisterCell :=
  match v.registers.find? name with
  | some cell => .ok cell
  | none => .error (.registerNotFound name)

/-- The cell of a stretch of memory, if it was written. -/
def memory? (v : Value) (l : Location) : Option MemoryCell := v.memory.find? l

/-- Whether some bit of a register may be tainted. -/
def isTainted (v : Value) (name : String) : Except Fault Bool :=
  (v.register name).map fun cell => cell.taint.any Taint.isNonzero

/-! ## Text -/

/-- The line of a register. -/
def registerLine (e : String × RegisterCell) : String :=
  "reg [" ++ e.1 ++ "] = " ++
    (match e.2.content with
      | some c => e.2.region.mark ++ c.text
      | none => "?") ++
    Taint.optionText e.2.taint

/-- The line of a stretch of memory. -/
def memoryLine (e : Location × MemoryCell) : String :=
  "mem [" ++ e.1.address.text ++ ", " ++ toString e.2.count ++ "] = " ++ e.2.content.text ++
    Taint.optionText e.2.taint

/-- A line for each register and then for each stretch of memory. -/
def lines (v : Value) : List String :=
  v.registers.entries.map registerLine ++ v.memory.entries.map memoryLine

/-- All lines, each with its end. -/
def text (v : Value) : String := String.join (v.lines.map (· ++ "\n"))

end Value

end FlowAutomaton
