/-
Integers of any size as text in a base. Up to base 36 the letters of both cases stand for 10 to
35 and lower case is written; above, upper case letters stand for 10 to 35 and lower case ones
for 36 to 61. Reading skips blanks before the sign and after the first digit.
-/
import FlowAutomaton.Fault

namespace FlowAutomaton.Numeral

/-! ## Digits -/

/-- The value of a character as a digit: in the alphabet of bases up to 36, or of those above. -/
def letterValue (base : Nat) (c : Char) : Option Nat :=
  if '0' ≤ c ∧ c ≤ '9' then some (c.toNat - '0'.toNat)
  else if 'A' ≤ c ∧ c ≤ 'Z' then some (c.toNat - 'A'.toNat + 10)
  else if 'a' ≤ c ∧ c ≤ 'z' then some (c.toNat - 'a'.toNat + if base ≤ 36 then 10 else 36)
  else none

/-- The value of a digit of a base. -/
def digitValue (base : Nat) (c : Char) : Option Nat := (letterValue base c).filter (· < base)

/-- The character that is written for a digit. -/
def digitChar (base d : Nat) : Char :=
  if d < 10 then Char.ofNat ('0'.toNat + d)
  else if base ≤ 36 then Char.ofNat ('a'.toNat + (d - 10))
  else if d < 36 then Char.ofNat ('A'.toNat + (d - 10))
  else Char.ofNat ('a'.toNat + (d - 36))

/-- The number that digits denote, the most significant one first. -/
def ofDigits (base : Nat) (ds : List Nat) : Nat := ds.foldl (fun n d => n * base + d) 0

/-- Puts the digits of `n` before `ds`, at most `fuel` of them. -/
def digitsOnto (base : Nat) : Nat → Nat → List Nat → List Nat
  | 0, _, ds => ds
  | fuel + 1, n, ds =>
    if n < base then n :: ds else digitsOnto base fuel (n / base) (n % base :: ds)

/-- The digits of a number, the most significant one first; zero has one digit. -/
def digits (base n : Nat) : List Nat := digitsOnto base (n + 1) n []

/-! ## Writing -/

/-- A natural number in a base, as characters. -/
def natChars (base n : Nat) : List Char := (digits base n).map (digitChar base)

/-- An integer in a base, as characters. -/
def chars (base : Nat) (n : Int) : List Char :=
  if n < 0 then '-' :: natChars base n.natAbs else natChars base n.natAbs

/-- An integer in a base from 2 to 62. -/
def render (base : Nat) (n : Int) : String := String.ofList (chars base n)

/-- An integer in base 16. -/
def hex (n : Int) : String := render 16 n

/-- An integer in base 10. -/
def decimal (n : Int) : String := render 10 n

/-! ## Reading -/

/-- Text without one leading `0x` or `0X`, where more than that is there. -/
def dropHexMark : List Char → List Char
  | '0' :: x :: c :: rest => if x = 'x' ∨ x = 'X' then c :: rest else '0' :: x :: c :: rest
  | cs => cs

/-- Digits of a base with blanks among them, as the number they denote; no digit is zero. -/
def readDigits? (base : Nat) (cs : List Char) : Option Nat :=
  ((cs.filter (!Text.isBlank ·)).mapM (digitValue base)).map (ofDigits base)

/-- The base that a leading zero and the letter after it announce, and the text after them. -/
def announcedBase : List Char → Nat × List Char
  | '0' :: c :: rest =>
    if c = 'x' ∨ c = 'X' then (16, rest)
    else if c = 'b' ∨ c = 'B' then (2, rest)
    else (8, c :: rest)
  | '0' :: [] => (8, [])
  | cs => (10, cs)

/-- A magnitude: a digit, then digits and blanks. Base 0 takes the base from the text. -/
def readMagnitude? (base : Nat) (cs : List Char) : Option Nat :=
  match cs with
  | [] => none
  | c :: _ =>
    match digitValue (if base = 0 then 10 else base) c with
    | none => none
    | some _ =>
      if base = 0 then
        let (announced, rest) := announcedBase cs
        readDigits? announced rest
      else readDigits? base cs

/-- A numeral: blanks, a sign or none, a magnitude. -/
def readSigned? (base : Nat) (cs : List Char) : Option Int :=
  match cs.dropWhile Text.isBlank with
  | '-' :: rest => (readMagnitude? base rest).map fun m => -(m : Int)
  | rest => (readMagnitude? base rest).map fun m => (m : Int)

/-- The integer that a text denotes in a base. In base 16 one mark `0x` is allowed in front;
the text ends at its first NUL; no base is above 62. -/
def read? (base : Nat) (s : String) : Option Int :=
  let cs := if base = 16 then dropHexMark s.toList else s.toList
  if 62 < base then none else readSigned? base (cs.takeWhile (· ≠ '\x00'))

/-- The integer that a text denotes in a base. -/
def parse (base : Nat) (s : String) : Except Fault Int :=
  match read? base s with
  | some n => .ok n
  | none => .error (.malformedNumeral s base)

end FlowAutomaton.Numeral
