/-
Stored values as sequences of fields, and readers of such sequences. A reader takes fields from
the front; it fails on a field of another kind as it does where there are no more fields.
-/
import FlowAutomaton.Fault

namespace FlowAutomaton.Checkpoint

/-- A stored field. -/
inductive Field where
  | flag (b : Bool)
  | byte (n : UInt8)
  /-- A 32-bit number: a width, a repetition, or the number of an alternative. -/
  | half (n : UInt32)
  /-- A 64-bit number: an id. -/
  | word (n : UInt64)
  /-- The length of a sequence. -/
  | count (n : Nat)
  | text (s : String)
  deriving DecidableEq, Repr

/-- The number of bytes that a field takes in a file; a text has its length in front. -/
def Field.byteSize : Field → Nat
  | flag _ => 1
  | byte _ => 1
  | half _ => 4
  | word _ => 8
  | count _ => 8
  | text s => 8 + s.utf8ByteSize

/-- Why a value cannot be read. -/
inductive Damage where
  /-- The fields are too few or of the wrong kinds. -/
  | incomplete
  /-- The fields are there, but make no value. -/
  | invalid (cause : Fault)
  deriving DecidableEq, Repr

/-- Reads a value from the front of some fields. -/
abbrev Reader (α : Type) : Type := StateT (List Field) (Except Damage) α

namespace Reader

/-- Takes the first field apart. -/
def field {α : Type} (f : Field → Except Damage α) : Reader α := fun fs =>
  match fs with
  | [] => .error .incomplete
  | x :: rest => (f x).map (·, rest)

/-- Reads a value several times. -/
def times {α : Type} (r : Reader α) : Nat → Reader (List α)
  | 0 => pure []
  | n + 1 => do
    let a ← r
    let rest ← times r n
    pure (a :: rest)

end Reader

/-- Types with a stored form. -/
class Storable (α : Type) where
  /-- The fields of a value. -/
  write : α → List Field
  /-- Reads a value back. -/
  read : Reader α

export Storable (write read)

/-! ## Plain values -/

instance : Storable Bool where
  write b := [.flag b]
  read := .field fun | .flag b => .ok b | _ => .error .incomplete

instance : Storable UInt8 where
  write n := [.byte n]
  read := .field fun | .byte n => .ok n | _ => .error .incomplete

instance : Storable UInt32 where
  write n := [.half n]
  read := .field fun | .half n => .ok n | _ => .error .incomplete

instance : Storable UInt64 where
  write n := [.word n]
  read := .field fun | .word n => .ok n | _ => .error .incomplete

instance : Storable Nat where
  write n := [.count n]
  read := .field fun | .count n => .ok n | _ => .error .incomplete

instance : Storable String where
  write s := [.text s]
  read := .field fun | .text s => .ok s | _ => .error .incomplete

/-! ## Compound values -/

instance {α β : Type} [Storable α] [Storable β] : Storable (α × β) where
  write p := write p.1 ++ write p.2
  read := do
    let a ← read
    let b ← read
    pure (a, b)

/-- Whether there is a value, then the value. -/
instance {α : Type} [Storable α] : Storable (Option α) where
  write
    | some a => write true ++ write a
    | none => write false
  read := do
    let present : Bool ← read
    if present then some <$> read else pure none

/-- The length, then the members. -/
instance {α : Type} [Storable α] : Storable (List α) where
  write l := write l.length ++ l.flatMap write
  read := do
    let n : Nat ← read
    Reader.times read n

end FlowAutomaton.Checkpoint
