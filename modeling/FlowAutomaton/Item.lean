/-
What can be written to an output stream, and the bytes that each kind of item is spelled with.
-/
import FlowAutomaton.Binary64.General
import FlowAutomaton.Text.Bytes

namespace FlowAutomaton

/-- Something to write. -/
inductive Item where
  /-- A single byte, which need not be a character by itself. -/
  | byte (code : UInt8)
  | text (s : String)
  /-- Text that ends at its first NUL. -/
  | terminated (s : String)
  | integer (n : Int)
  | flag (b : Bool)
  | real (x : Binary64)
  /-- A reference to nothing. -/
  | null
  deriving DecidableEq, Repr

/-- The bytes that an item is spelled with. -/
def Item.bytes : Item → List UInt8
  | byte c => [c]
  | text s => Text.toBytes s
  | terminated s => Text.toBytes (Text.beforeNul s)
  | integer n => Text.toBytes (Numeral.decimal n)
  | flag b => Text.toBytes (Text.ofFlag b)
  | real x => Text.toBytes x.text
  | null => Text.toBytes "0"

end FlowAutomaton
