/-
Floating point numbers read from the front of a text: decimal or, after `0x`, hexadecimal digits
with a point and an exponent, the names of infinity, and the name of what is no number. What
follows is not looked at; a text that does not start with a number is read as zero.
-/
import FlowAutomaton.Binary64.Basic
import FlowAutomaton.Numeral

namespace FlowAutomaton.Binary64

/-- Whether a character is a digit of a base. -/
def isDigitOf (base : Nat) (c : Char) : Bool := (Numeral.digitValue base c).isSome

/-- The values of digits. -/
def digitValues (base : Nat) (cs : List Char) : List Nat :=
  cs.filterMap (Numeral.digitValue base)

/-- The text after a word, whose letters may be of either case. -/
def afterWord? (word : List Char) (cs : List Char) : Option (List Char) :=
  if (cs.take word.length).map Char.toLower = word then some (cs.drop word.length) else none

/-- A number after a sign or none. -/
def takeSign : List Char → Bool × List Char
  | '-' :: rest => (true, rest)
  | '+' :: rest => (false, rest)
  | cs => (false, cs)

/-- The exponent after its letter, or zero where there is none. -/
def exponentAfter (letter : Char) (cs : List Char) : Int :=
  match cs with
  | c :: rest =>
    if c.toLower = letter then
      let (negative, digits) := takeSign rest
      let n := Numeral.ofDigits 10 (digitValues 10 (digits.takeWhile Char.isDigit))
      if negative then -(n : Int) else n
    else 0
  | [] => 0

/-- The digits of a number before and after its point, and the text after them. -/
def takeDigits (base : Nat) (cs : List Char) : List Char × List Char × List Char :=
  let whole := cs.takeWhile (isDigitOf base)
  match cs.dropWhile (isDigitOf base) with
  | '.' :: rest => (whole, rest.takeWhile (isDigitOf base), rest.dropWhile (isDigitOf base))
  | rest => (whole, [], rest)

/-- The number nearest to digits times a power of `base ^ unit`, where the digits are those of
base `base`. Numbers far outside of the range are not computed. -/
def ofDigits (negative : Bool) (base unit : Nat) (ds : List Nat) (e : Int) : Binary64 :=
  let ds := ds.dropWhile (· = 0)
  let magnitude := (ds.length : Int) * unit + e
  if ds = [] ∨ magnitude < -2000 then finite negative 0 0
  else if 2000 < magnitude then infinite negative
  else
    let n := Numeral.ofDigits base ds
    let (num, den) := scale (if base = 16 then 2 else base) e n 1
    ofFraction negative num den

/-- A number in decimal digits; no digits are zero. -/
def readDecimal (negative : Bool) (cs : List Char) : Binary64 :=
  let (whole, fraction, rest) := takeDigits 10 cs
  if whole = [] ∧ fraction = [] then finite false 0 0
  else
    ofDigits negative 10 1 (digitValues 10 (whole ++ fraction))
      (exponentAfter 'e' rest - fraction.length)

/-- A number without its sign. -/
def readUnsigned (negative : Bool) (cs : List Char) : Binary64 :=
  if (afterWord? "inf".toList cs).isSome then infinite negative
  else if (afterWord? "nan".toList cs).isSome then nan negative
  else
    match afterWord? "0x".toList cs with
    | some hex =>
      let (whole, fraction, rest) := takeDigits 16 hex
      if whole = [] ∧ fraction = [] then finite negative 0 0
      else
        ofDigits negative 16 4 (digitValues 16 (whole ++ fraction))
          (exponentAfter 'p' rest - 4 * fraction.length)
    | none => readDecimal negative cs

/-- The number at the front of a text, after blanks. -/
def ofText (s : String) : Binary64 :=
  let (negative, cs) := takeSign (s.toList.dropWhile Text.isBlank)
  readUnsigned negative cs

end FlowAutomaton.Binary64
