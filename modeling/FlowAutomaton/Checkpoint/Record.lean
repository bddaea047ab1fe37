/-
The stored forms of numbers, addresses, statements, abstract values and states. Edges are not
stored with the states.
-/
import FlowAutomaton.Checkpoint.Field
import FlowAutomaton.State

namespace FlowAutomaton.Checkpoint

/-- Numbers are stored as text in base 16. -/
instance : Storable Int where
  write n := write (Numeral.hex n)
  read := do
    let s : String ← read
    match Numeral.parse 16 s with
    | .ok n => pure n
    | .error e => throw (.invalid e)

instance : Storable Region where
  write r := write r.code
  read := Region.ofCode <$> read

instance : Storable Address where
  write a := write a.region ++ write a.offset ++ write a.size
  read := do
    let region ← read
    let offset ← read
    let size ← read
    pure ⟨region, offset, size⟩

instance : Storable Statement where
  write s := write s.kind.code ++ write s.first ++ write s.second
  read := do
    let code ← read
    let first ← read
    let second ← read
    pure ⟨.ofCode code, first, second⟩

/-- The number of the alternative, then what it holds. -/
instance : Storable Content where
  write
    | .exact v => write (0 : UInt32) ++ write v
    | .masked v m => write (1 : UInt32) ++ write v ++ write m
    | .bytes p => write (2 : UInt32) ++ write p
  read := do
    let alternative : UInt32 ← read
    if alternative = 0 then
      let v ← read
      pure (.exact v)
    else if alternative = 1 then
      let v ← read
      let m ← read
      pure (.masked v m)
    else if alternative = 2 then
      let p ← read
      pure (.bytes p)
    else throw .incomplete

/-- The number of the alternative, then what it holds. -/
instance : Storable Taint where
  write
    | .exact v => write (0 : UInt32) ++ write v
    | .masked v m => write (1 : UInt32) ++ write v ++ write m
  read := do
    let alternative : UInt32 ← read
    if alternative = 0 then
      let v ← read
      pure (.exact v)
    else if alternative = 1 then
      let v ← read
      let m ← read
      pure (.masked v m)
    else throw .incomplete

instance : Storable RegisterCell where
  write c := write c.width ++ write c.region ++ write c.content ++ write c.taint
  read := do
    let width ← read
    let region ← read
    let content ← read
    let taint ← read
    pure ⟨width, region, content, taint⟩

instance : Storable MemoryCell where
  write c := write c.count ++ write c.content ++ write c.taint
  read := do
    let count ← read
    let content ← read
    let taint ← read
    pure ⟨count, content, taint⟩

instance : Storable Location where
  write l := write l.address ++ write l.count
  read := do
    let address ← read
    let count ← read
    pure ⟨address, count⟩

/-- The entries of a table; of two under one key the first counts. -/
instance {κ υ : Type} [Ord κ] [Std.TransOrd κ] [Storable κ] [Storable υ] :
    Storable (Table κ υ) where
  write t := write t.entries
  read := do
    let entries : List (κ × υ) ← read
    pure (entries.foldl (fun t e => t.insertIfNew e.1 e.2) {})

instance : Storable Value where
  write v := write v.registers ++ write v.memory
  read := do
    let registers ← read
    let memory ← read
    pure ⟨registers, memory⟩

instance : Storable DecodingContext where
  write c := write c.addressSize ++ write c.operandSize
  read := do
    let addressSize ← read
    let operandSize ← read
    pure ⟨addressSize, operandSize⟩

instance : Storable State where
  write s :=
    write s.id ++ write s.ip ++ write s.value ++ write s.context ++ write s.statements ++
      write s.isFinal ++ write s.backLoop ++ write s.forwardLoop ++ write s.branch ++
      write s.bytes ++ write s.isTainted
  read := do
    let id ← read
    let ip ← read
    let value ← read
    let context ← read
    let statements ← read
    let isFinal ← read
    let backLoop ← read
    let forwardLoop ← read
    let branch ← read
    let bytes ← read
    let isTainted ← read
    pure ⟨id, ip, value, context, statements, isFinal, backLoop, forwardLoop, branch, bytes,
      isTainted⟩

end FlowAutomaton.Checkpoint
