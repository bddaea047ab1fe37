/-
Floating point numbers as text with six significant digits: positional where the number is at
least 0.0001 and below a million, with an exponent otherwise, and without zeros at the end of a
fraction.
-/
import FlowAutomaton.Binary64.Basic
import FlowAutomaton.Numeral

namespace FlowAutomaton.Binary64

/-- The number of significant digits. -/
def precision : Nat := 6

/-- The decimal exponent of a fraction: it is at least that power of ten and less than the
next. -/
def decimalExponent (num den : Nat) : Int :=
  let estimate : Int := ((Numeral.digits 10 num).length : Int) - (Numeral.digits 10 den).length
  if atLeastPower 10 estimate num den then estimate else estimate - 1

/-- The significant digits of a fraction as a whole number, and its decimal exponent, which
grows where rounding carries over. -/
def significant (num den : Nat) : Nat × Int :=
  let e := decimalExponent num den
  let (n, d) := scale 10 ((precision : Int) - 1 - e) num den
  let digits := roundFraction n d
  if digits = Nat.pow 10 precision then (Nat.pow 10 (precision - 1), e + 1) else (digits, e)

/-- Characters without the zeros at their end. -/
def dropFinalZeros (cs : List Char) : List Char := (cs.reverse.dropWhile (· = '0')).reverse

/-- A whole part, and a fraction with its point where there is one. -/
def joinFraction (whole fraction : List Char) : List Char :=
  match dropFinalZeros fraction with
  | [] => whole
  | fraction => whole ++ '.' :: fraction

/-- Significant digits in positional notation. -/
def positional (ds : List Char) (e : Int) : List Char :=
  if 0 ≤ e then joinFraction (ds.take (e.toNat + 1)) (ds.drop (e.toNat + 1))
  else joinFraction ['0'] (List.replicate (e.natAbs - 1) '0' ++ ds)

/-- An exponent with its sign and at least two digits. -/
def exponentChars (e : Int) : List Char :=
  let ds := Numeral.natChars 10 e.natAbs
  'e' :: (if e < 0 then '-' else '+') :: (List.replicate (2 - ds.length) '0' ++ ds)

/-- Significant digits with an exponent. -/
def scientific (ds : List Char) (e : Int) : List Char :=
  joinFraction (ds.take 1) (ds.drop 1) ++ exponentChars e

/-- A positive fraction with six significant digits. -/
def fractionChars (num den : Nat) : List Char :=
  let (digits, e) := significant num den
  let ds := Numeral.natChars 10 digits
  if -4 ≤ e ∧ e < precision then positional ds e else scientific ds e

/-- A number without its sign. -/
def magnitudeChars : Binary64 → List Char
  | finite _ 0 _ => ['0']
  | finite _ m e =>
    let (num, den) := scale 2 e m 1
    fractionChars num den
  | infinite _ => ['i', 'n', 'f']
  | nan _ => ['n', 'a', 'n']

/-- Whether the sign is written. -/
def isNegative : Binary64 → Bool
  | finite b _ _ => b
  | infinite b => b
  | nan b => b

/-- A number as text. -/
def text (x : Binary64) : String :=
  String.ofList ((if x.isNegative then ['-'] else []) ++ x.magnitudeChars)

end FlowAutomaton.Binary64
