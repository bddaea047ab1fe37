/-
Decoded statements. They are stored and written here; what they do is not this library's
concern.
-/
import FlowAutomaton.Fault

namespace FlowAutomaton

namespace Statement

/-- What a statement does. Stored numbers that name no kind are kept apart. -/
inductive Kind where
  | set
  | jump
  | branch
  | call
  | ret
  | nop
  | directive
  | unknown (code : UInt32) (unnamed : 6 < code)
  deriving DecidableEq

/-- The number a kind is stored under. -/
def Kind.code : Kind → UInt32
  | set => 0
  | jump => 1
  | branch => 2
  | call => 3
  | ret => 4
  | nop => 5
  | directive => 6
  | unknown c _ => c

/-- The kind stored under a number. -/
def Kind.ofCode (c : UInt32) : Kind :=
  if h : 6 < c then unknown c h
  else if c = 6 then directive
  else if c = 5 then nop
  else if c = 4 then ret
  else if c = 3 then call
  else if c = 2 then branch
  else if c = 1 then jump
  else set

theorem Kind.ofCode_code (k : Kind) : ofCode k.code = k := by
  cases k with
  | unknown c h => simp [ofCode, code, h]
  | _ => rfl

end Statement

/-- A statement with its two operands: a destination, condition or text, and a source or
target. Operands that a kind does not have are empty. -/
structure Statement where
  kind : Statement.Kind := .nop
  first : String := ""
  second : String := ""
  deriving DecidableEq

namespace Statement

instance : Inhabited Statement := ⟨{}⟩

def set (dst src : String) : Statement := ⟨.set, dst, src⟩

def jump (target : String) : Statement := ⟨.jump, "", target⟩

def branch (condition target : String) : Statement := ⟨.branch, condition, target⟩

def call (target : String) : Statement := ⟨.call, "", target⟩

def ret : Statement := ⟨.ret, "", ""⟩

def nop : Statement := ⟨.nop, "", ""⟩

def directive (content : String) : Statement := ⟨.directive, content, ""⟩

/-- A statement in words. -/
def text (s : Statement) : Except Fault String :=
  match s.kind with
  | .set => .ok (s.first ++ " <- " ++ s.second ++ ";")
  | .jump => .ok ("jmp " ++ s.second ++ ";")
  | .branch => .ok ("if (" ++ s.first ++ ") jmp " ++ s.second ++ ";")
  | .call => .ok ("call " ++ s.second ++ ";")
  | .ret => .ok "ret;"
  | .nop => .ok "nop;"
  | .directive => .ok ("directive " ++ s.first ++ ";")
  | .unknown c _ => .error (.unexpectedStatement c)

end Statement

end FlowAutomaton
