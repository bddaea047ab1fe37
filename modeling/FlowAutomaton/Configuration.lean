/-
The configuration of an analysis: parameters, registers, and the initial contents of registers
and of memory, kept in order so that it does not matter in which order they were given.
-/
import FlowAutomaton.Action
import FlowAutomaton.Address
import FlowAutomaton.Initializer
import FlowAutomaton.Parameter
import FlowAutomaton.Table

namespace FlowAutomaton

/-- A stretch of a region: where it starts, and how often its content is repeated. -/
structure Extent where
  offset : Int
  count : UInt32
  deriving DecidableEq, Repr

/-- Extents by offset, then by count. -/
instance : Ord Extent := ⟨compareLex (compareOn fun e => e.offset) (compareOn fun e => e.count)⟩

instance : Std.TransOrd Extent :=
  inferInstanceAs
    (Std.TransCmp
      (compareLex (compareOn fun e : Extent => e.offset) (compareOn fun e => e.count)))

/-- The initial contents of a region. -/
abbrev MemoryTable := Table Extent Initializer

/-- The configuration of an analysis. -/
structure Configuration where
  addressSize : UInt32 := 32
  operandSize : UInt32 := 32
  loglevel : UInt32 := 0
  registers : RegisterTable := {}
  contents : Table String Initializer := {}
  globalMemory : MemoryTable := {}
  stackMemory : MemoryTable := {}
  heapMemory : MemoryTable := {}
  deriving DecidableEq

namespace Configuration

instance : Inhabited Configuration := ⟨{}⟩

/-! ## Parameters -/

/-- Gives a parameter its value. -/
def assign (c : Configuration) (p : Parameter) (n : UInt32) : Configuration :=
  match p with
  | .addressSize => { c with addressSize := n }
  | .operandSize => { c with operandSize := n }
  | .loglevel => { c with loglevel := n }

/-- Sets the parameter of a name from a text. Names of no parameter are ignored with a
warning. -/
def setParameter (name value : String) : Action Configuration Unit :=
  match Parameter.ofName? name with
  | some p => .tryModify fun c => (Parameter.read value).map (c.assign p)
  | none => .emit (.warning ("Ignored unsupported parameter " ++ name ++ "\n"))

/-! ## Registers -/

/-- Declares a register. -/
def declare (c : Configuration) (name : String) (width : UInt32) :
    Except Fault Configuration :=
  (c.registers.declare name width).map fun t => { c with registers := t }

/-- Declares the stack pointer. -/
def declareStackPointer (c : Configuration) (name : String) (width : UInt32) :
    Except Fault Configuration :=
  (c.registers.declareStackPointer name width).map fun t => { c with registers := t }

/-- Gives a declared register its initial content, in place of an earlier one. -/
def setRegister (c : Configuration) (name : String) (i : Initializer) :
    Except Fault Configuration :=
  if (c.registers.find? name).isSome then .ok { c with contents := c.contents.insert name i }
  else .error (.undeclaredRegister name)

/-! ## Memory -/

/-- The initial contents of a region. -/
def memory (c : Configuration) : Region → Except Fault MemoryTable
  | .global => .ok c.globalMemory
  | .stack => .ok c.stackMemory
  | .heap => .ok c.heapMemory
  | .unknown code _ => .error (.unexpectedRegion code)

/-- Gives an extent of a region its initial content, in place of an earlier one. -/
def setMemory (c : Configuration) (r : Region) (e : Extent) (i : Initializer) :
    Except Fault Configuration :=
  match r with
  | .global => .ok { c with globalMemory := c.globalMemory.insert e i }
  | .stack => .ok { c with stackMemory := c.stackMemory.insert e i }
  | .heap => .ok { c with heapMemory := c.heapMemory.insert e i }
  | .unknown code _ => .error (.unexpectedRegion code)

/-! ## Text -/

/-- The line of a register's initial content. -/
def registerLine (e : String × Initializer) : String :=
  "\treg[" ++ e.1 ++ "]=" ++ e.2.text ++ "\n"

/-- The line of an extent's initial content. -/
def memoryLine (name : String) (e : Extent × Initializer) : String :=
  "\t" ++ name ++ "[0x" ++ Numeral.hex e.1.offset ++ ", " ++ toString e.1.count ++ "]=" ++
    e.2.text ++ "\n"

/-- The whole configuration, registers and extents in order. -/
def text (c : Configuration) : String :=
  "Analyzer parameters:\n" ++
    "\taddress_sz=" ++ toString c.addressSize ++ "\n" ++
    "\toperand_sz=" ++ toString c.operandSize ++ "\n" ++
    "\tloglevel=" ++ toString c.loglevel ++ "\n" ++
    "Initial state:\n" ++
    String.join (c.contents.entries.map registerLine) ++
    String.join (c.globalMemory.entries.map (memoryLine "mem")) ++
    String.join (c.stackMemory.entries.map (memoryLine "stack")) ++
    String.join (c.heapMemory.entries.map (memoryLine "heap"))

end Configuration

end FlowAutomaton
