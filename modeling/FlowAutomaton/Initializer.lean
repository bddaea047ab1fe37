/-
Initial contents and taints of registers and memory, as a configuration gives them.
-/
import FlowAutomaton.Bits
import FlowAutomaton.Numeral
import FlowAutomaton.Register

namespace FlowAutomaton

/-- What is known of a content. -/
inductive Content where
  /-- The value itself. -/
  | exact (value : Int)
  /-- A value whose bits in the mask are unknown. -/
  | masked (value mask : Int)
  /-- Raw bytes as hexadecimal text, for memory only. -/
  | bytes (pattern : String)
  deriving DecidableEq, Repr

/-- What is known of a taint. -/
inductive Taint where
  /-- The taint itself. -/
  | exact (value : Int)
  /-- A taint whose bits in the mask are unknown. -/
  | masked (value mask : Int)
  deriving DecidableEq, Repr

/-- A content, and a taint unless the default applies. -/
structure Initializer where
  content : Content
  taint : Option Taint
  deriving DecidableEq, Repr

namespace Content

/-- The numbers that a content is made of. -/
def numbers : Content → List Int
  | exact v => [v]
  | masked v m => [v, m]
  | bytes _ => []

/-- Whether a content is a pattern of bytes. -/
def isBytes : Content → Bool
  | bytes _ => true
  | _ => false

/-- A content in words. -/
def text : Content → String
  | exact v => "0x" ++ Numeral.hex v
  | masked v m => "0x" ++ Numeral.hex v ++ "?0x" ++ Numeral.hex m
  | bytes p => "|" ++ p ++ "|"

end Content

namespace Taint

/-- The numbers that a taint is made of. -/
def numbers : Taint → List Int
  | exact v => [v]
  | masked v m => [v, m]

/-- Whether some bit may be tainted. -/
def isNonzero (t : Taint) : Bool := t.numbers.any (· ≠ 0)

/-- A taint in words. -/
def text : Taint → String
  | exact v => "!0x" ++ Numeral.hex v
  | masked v m => "!0x" ++ Numeral.hex v ++ "?0x" ++ Numeral.hex m

/-- A taint in words, or nothing where the default applies. -/
def optionText : Option Taint → String
  | some t => t.text
  | none => ""

end Taint

namespace Initializer

/-- An initializer in words. -/
def text (i : Initializer) : String := i.content.text ++ Taint.optionText i.taint

/-- All numbers of an initializer. -/
def numbers (i : Initializer) : List Int :=
  i.content.numbers ++ (i.taint.map Taint.numbers).getD []

/-- Refuses what cannot be put into a register: bytes, and numbers of more bits than it has. -/
def checkRegister (i : Initializer) (r : Register) : Except Fault Unit :=
  if i.content.isBytes then .error (.bytesForRegister r.name)
  else if i.numbers.all (Bits.length · ≤ r.width) then .ok ()
  else .error (.tooWide r.name)

end Initializer

end FlowAutomaton
