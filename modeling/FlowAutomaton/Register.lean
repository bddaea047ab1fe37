/-
Machine registers and the table of those that an architecture has. Names are declared once, no
register has width zero, and one of them at most is the stack pointer.
-/
import FlowAutomaton.Fault

namespace FlowAutomaton

/-- A register: its name, its width in bits, and whether it is the stack pointer. -/
structure Register where
  name : String
  width : UInt32
  isStackPointer : Bool
  deriving DecidableEq, Repr

/-- The registers of an architecture, in the order of their declarations. -/
structure RegisterTable where
  registers : List Register := []
  deriving DecidableEq, Repr

namespace RegisterTable

/-- The register of a name. -/
def find? (t : RegisterTable) (name : String) : Option Register :=
  t.registers.find? (·.name == name)

/-- The number of registers. -/
def size (t : RegisterTable) : Nat := t.registers.length

/-- The register that was declared as stack pointer. -/
def stackPointer? (t : RegisterTable) : Option Register :=
  t.registers.find? (·.isStackPointer)

/-- The registers by name. -/
def byName (t : RegisterTable) : List Register := t.registers.mergeSort (·.name ≤ ·.name)

/-- Adds a register after the others, if its width is not zero and its name is new. -/
def add (t : RegisterTable) (r : Register) : Except Fault RegisterTable :=
  if r.width = 0 then .error (.zeroWidth r.name)
  else if (t.find? r.name).isSome then .error (.alreadyDeclared r.name)
  else .ok ⟨t.registers ++ [r]⟩

/-- Declares a register. -/
def declare (t : RegisterTable) (name : String) (width : UInt32) :
    Except Fault RegisterTable :=
  t.add ⟨name, width, false⟩

/-- Declares the stack pointer. -/
def declareStackPointer (t : RegisterTable) (name : String) (width : UInt32) :
    Except Fault RegisterTable :=
  match t.stackPointer? with
  | some r => .error (.stackPointerTaken r.name)
  | none => t.add ⟨name, width, true⟩

/-- One register of the table's text. -/
def entryText (r : Register) : String :=
  " " ++ r.name ++ "(" ++ toString r.width ++ (if r.isStackPointer then ",sp" else "") ++ ")"

/-- All registers on one line. -/
def text (t : RegisterTable) : String :=
  "registers:" ++ String.join (t.registers.map entryText) ++ "\n"

end RegisterTable

end FlowAutomaton
