/-
Integers as sequences of bits: the length of a magnitude, and conjunction and disjunction of
numbers in two's complement with endless sign bits.
-/
import FlowAutomaton.Fault

namespace FlowAutomaton.Bits

/-- The number of binary digits of a magnitude; zero is written with one digit. -/
def digitCount (n : Int) : Nat := n.natAbs.log2 + 1

/-- The number of binary digits of a magnitude as a 32-bit length, which wraps. -/
def length (n : Int) : UInt32 := UInt32.ofNat (digitCount n)

/-- The bits of `m` that are not bits of `n`. -/
def clear (m n : Nat) : Nat := m ^^^ (m &&& n)

/-- The common bits of two numbers. -/
def conj : Int → Int → Int
  | .ofNat m, .ofNat n => .ofNat (m &&& n)
  | .ofNat m, .negSucc n => .ofNat (clear m n)
  | .negSucc m, .ofNat n => .ofNat (clear n m)
  | .negSucc m, .negSucc n => .negSucc (m ||| n)

/-- The bits of either of two numbers. -/
def disj : Int → Int → Int
  | .ofNat m, .ofNat n => .ofNat (m ||| n)
  | .ofNat m, .negSucc n => .negSucc (clear n m)
  | .negSucc m, .ofNat n => .negSucc (clear m n)
  | .negSucc m, .negSucc n => .negSucc (m &&& n)

/-- A number moved up by some bits. -/
def shiftUp (n : Int) (k : UInt32) : Int := n * (Nat.pow 2 k.toNat : Nat)

/-- Whether a number is one of the 64-bit words. -/
def fitsWord (n : Int) : Bool := 0 ≤ n && digitCount n ≤ 64

/-- The 64-bit word that a number is. -/
def toWord (n : Int) : Except Fault UInt64 :=
  if fitsWord n then .ok (UInt64.ofNat n.natAbs) else .error (.exceedsWord n)

end FlowAutomaton.Bits
