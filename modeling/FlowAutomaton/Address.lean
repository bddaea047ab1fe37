/-
Memory regions, and addresses in them. Addresses are ordered by region and then by offset; the
size of an address only sets how many digits are written.
-/
import FlowAutomaton.Numeral

namespace FlowAutomaton

/-! ## Regions -/

/-- A memory region. Stored numbers that name none of the three regions are kept apart. -/
inductive Region where
  | global
  | stack
  | heap
  | unknown (code : UInt32) (unnamed : 2 < code)
  deriving DecidableEq

namespace Region

/-- The number a region is stored under. -/
def code : Region → UInt32
  | global => 0
  | stack => 1
  | heap => 2
  | unknown c _ => c

/-- The region stored under a number. -/
def ofCode (c : UInt32) : Region :=
  if h : 2 < c then unknown c h else if c = 2 then heap else if c = 1 then stack else global

/-- The name of a region. -/
def name : Region → Except Fault String
  | global => .ok "global"
  | stack => .ok "stack"
  | heap => .ok "heap"
  | unknown c _ => .error (.unexpectedRegion c)

/-- The letter that marks what points into the stack or the heap. -/
def mark : Region → String
  | stack => "S"
  | heap => "H"
  | _ => ""

theorem ofCode_code (r : Region) : ofCode r.code = r := by
  cases r with
  | unknown c h => simp [ofCode, code, h]
  | _ => rfl

theorem code_ofCode (c : UInt32) : (ofCode c).code = c := by
  unfold ofCode
  split
  · rfl
  split
  · simp_all [code]
  split
  · simp_all [code]
  next h h2 h1 =>
    have : c = 0 := by
      apply UInt32.toNat_inj.mp
      have h2 : c.toNat ≠ 2 := fun h => h2 (UInt32.toNat_inj.mp h)
      have h1 : c.toNat ≠ 1 := fun h => h1 (UInt32.toNat_inj.mp h)
      have h : ¬2 < c.toNat := fun h' => h (UInt32.lt_iff_toNat_lt.mpr h')
      change c.toNat = 0
      omega
    exact this.symm

end Region

/-! ## Addresses -/

/-- An address: a region, an offset in it, and a size in bits. -/
structure Address where
  region : Region := .global
  offset : Int := 0
  size : UInt32 := 0
  deriving DecidableEq

namespace Address

instance : Inhabited Address := ⟨{}⟩

/-- The address at an offset, which cannot be negative. -/
def make (region : Region) (offset : Int) (size : UInt32) : Except Fault Address :=
  if offset < 0 then .error (.negativeOffset offset) else .ok ⟨region, offset, size⟩

/-- Addresses by region, then by offset, whatever their sizes. -/
instance : Ord Address :=
  ⟨compareLex (compareOn fun a => a.region.code) (compareOn fun a => a.offset)⟩

instance : Std.TransOrd Address :=
  inferInstanceAs
    (Std.TransCmp
      (compareLex (compareOn fun a : Address => a.region.code) (compareOn fun a => a.offset)))

/-- Whether two addresses name the same place. -/
def same (a b : Address) : Bool := compare a b == .eq

/-- An address as hexadecimal digits, filled up with zeros to a digit for every four bits. -/
def text (a : Address) : String :=
  let digits := Numeral.chars 16 a.offset
  let fill := List.replicate (a.size.toNat / 4 - digits.length) '0'
  a.region.mark ++ "0x" ++ String.ofList (fill ++ digits)

end Address

end FlowAutomaton
