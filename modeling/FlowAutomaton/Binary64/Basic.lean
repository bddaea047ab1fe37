/-
Binary floating point numbers of 64 bits as exact values, and the one nearest to a fraction.
-/

namespace FlowAutomaton

/-- A floating point number: a signed multiple of a power of two, an infinity, or no number. -/
inductive Binary64 where
  /-- The number `± mantissa · 2 ^ exponent`. -/
  | finite (negative : Bool) (mantissa : Nat) (exponent : Int)
  | infinite (negative : Bool)
  | nan (negative : Bool)
  deriving DecidableEq, Repr

namespace Binary64

/-- The whole number nearest to a fraction, the even one of two. -/
def roundFraction (num den : Nat) : Nat :=
  let q := num / den
  let r := num % den
  if 2 * r < den then q else if den < 2 * r then q + 1 else q + q % 2

/-- A fraction times a power of a base, as a numerator and a denominator. -/
def scale (base : Nat) (e : Int) (num den : Nat) : Nat × Nat :=
  if 0 ≤ e then (num * Nat.pow base e.toNat, den) else (num, den * Nat.pow base e.natAbs)

/-- Whether a fraction is at least a power of a base. -/
def atLeastPower (base : Nat) (e : Int) (num den : Nat) : Bool :=
  let (n, d) := scale base (-e) num den
  d ≤ n

/-- The number nearest to a signed fraction: 53 binary digits, fewer below the least normal
number, infinite above the greatest number. -/
def ofFraction (negative : Bool) (num den : Nat) : Binary64 :=
  if num = 0 then finite negative 0 0
  else
    let estimate : Int := (num.log2 : Int) - den.log2
    let log := if atLeastPower 2 estimate num den then estimate else estimate - 1
    let exponent := max (log - 52) (-1074)
    let (n, d) := scale 2 (-exponent) num den
    let mantissa := roundFraction n d
    if atLeastPower 2 (1024 - exponent) mantissa 1 then infinite negative
    else finite negative mantissa exponent

end Binary64

end FlowAutomaton
