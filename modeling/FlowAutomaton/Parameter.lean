/-
The scalar parameters of an analysis and the texts that set them.
-/
import FlowAutomaton.Numeral

namespace FlowAutomaton

/-- A scalar parameter. -/
inductive Parameter where
  | addressSize
  | operandSize
  | loglevel
  deriving DecidableEq, Repr

namespace Parameter

/-- The parameter of a name. -/
def ofName? (name : String) : Option Parameter :=
  if name = "analyzer.address_sz" then some addressSize
  else if name = "analyzer.operand_sz" then some operandSize
  else if name = "analyzer.loglevel" then some loglevel
  else none

/-- The decimal digits that a text begins with. -/
def leadingDigits (cs : List Char) : List Char := cs.takeWhile Char.isDigit

/-- The number that decimal digits denote. -/
def digitsValue (cs : List Char) : Nat := Numeral.ofDigits 10 (cs.map fun c => c.toNat - '0'.toNat)

/-- The 32-bit number that a text of decimal digits denotes. Leading digits that exceed 64 bits
are reported as too large before what follows them is looked at. -/
def read (s : String) : Except Fault UInt32 :=
  let ds := leadingDigits s.toList
  let n := digitsValue ds
  if ds = [] then .error (.notUnsigned s)
  else if UInt64.size ≤ n then .error (.unsignedOverflow s)
  else if ds ≠ s.toList then .error (.notUnsigned s)
  else if UInt32.size ≤ n then .error (.unsignedOverflow s)
  else .ok (UInt32.ofNat n)

end Parameter

end FlowAutomaton
