/-
The abstract value that a configuration describes. All declared registers are added first; then
contents are written in the order of the tables, after a check that they fit their registers.
-/
import FlowAutomaton.Configuration
import FlowAutomaton.Value

namespace FlowAutomaton.InitialValue

/-- The region that a register points to: the stack for the stack pointer. -/
def pointedRegion (r : Register) : Region := if r.isStackPointer then .stack else .global

/-- The value in which all registers are declared and unknown. -/
def declared (t : RegisterTable) : Value := t.registers.foldl Value.addRegister {}

/-- Writes the initial content of a register. -/
def writeRegister (t : RegisterTable) (e : String × Initializer) : Action Value Unit := do
  match t.find? e.1 with
  | none => Action.fail (.undeclaredRegister e.1)
  | some r =>
    Action.ofExcept (e.2.checkRegister r)
    let region ← Action.ofExcept (pointedRegion r).name
    Action.log "cfa-init" ("init register " ++ r.name ++ " in " ++ region ++ "\n")
    Action.tryModify (·.setRegister r.name (pointedRegion r) e.2)

/-- Writes the initial content of an extent of a region. The address is one of that region, so
whether warnings are printed makes no difference. -/
def writeMemory (region : Region) (addressSize : UInt32) (e : Extent × Initializer) :
    Action Value Unit := do
  let address ← Action.ofExcept (Address.make region e.1.offset addressSize)
  Action.log "cfa-init"
    ("init " ++ address.text ++ " (" ++ toString e.1.count ++ " times)\n")
  Value.requestMemory true ⟨address, e.1.count⟩ region e.2

/-- Writes the initial contents of a region. -/
def writeRegion (c : Configuration) (region : Region) : Action Value Unit := do
  let table ← Action.ofExcept (c.memory region)
  table.entries.forM (writeMemory region c.addressSize)

/-- Writes all initial contents: of registers by name, then of the three regions. -/
def writeContents (c : Configuration) : Action Value Unit := do
  c.contents.entries.forM (writeRegister c.registers)
  writeRegion c .global
  writeRegion c .stack
  writeRegion c .heap

/-- The initial value of a configuration. -/
def ofConfiguration {σ : Type} (c : Configuration) : Action σ Value :=
  Action.timed "CFA.init" (Action.build (writeContents c) (declared c.registers))

end FlowAutomaton.InitialValue
