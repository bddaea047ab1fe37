/-
The length of a magnitude in bits, and the numbers that a word of some bits holds. Without the wrap
to 32 bits, a length of at most `w` says that the magnitude is below `2 ^ w`; of such numbers the
word holds all but the negative ones that lie below the least one in two's complement.
-/
import FlowAutomaton.Bits
import Mathlib.Algebra.Order.Ring.Int
import Mathlib.Tactic.Positivity

namespace FlowAutomaton.Bits

/-- The numbers with a magnitude of at most `w` bits. -/
def Within (w : Nat) (n : Int) : Prop := -2 ^ w < n ∧ n < 2 ^ w

/-- The numbers that a word of `w` bits holds, without a sign or in two's complement. -/
def Representable (w : Nat) (n : Int) : Prop := 0 ≤ n ∧ n < 2 ^ w ∨ -2 ^ (w - 1) ≤ n ∧ n < 0

instance (w : Nat) (n : Int) : Decidable (Representable w n) :=
  inferInstanceAs (Decidable (_ ∨ _))

theorem within_iff_natAbs_lt {w : Nat} {n : Int} : Within w n ↔ n.natAbs < 2 ^ w := by
  have hcast : ((2 ^ w : Nat) : Int) = 2 ^ w := by push_cast; rfl
  unfold Within
  omega

theorem representable_iff {w : Nat} (hw : 0 < w) {n : Int} :
    Representable w n ↔ Within w n ∧ -2 ^ (w - 1) ≤ n := by
  have hdouble : (2 : Int) ^ w = 2 * 2 ^ (w - 1) := by
    rw [← pow_succ', Nat.sub_add_cancel hw]
  have hpos : (0 : Int) < 2 ^ (w - 1) := by positivity
  unfold Representable Within
  omega

/-- Zero is written with one digit, so the width must not be zero. -/
theorem digitCount_le_iff {w : Nat} (hw : 0 < w) {n : Int} : digitCount n ≤ w ↔ Within w n := by
  rw [within_iff_natAbs_lt, digitCount]
  by_cases hn : n.natAbs = 0
  · simp [hn]
    omega
  · rw [Nat.add_one_le_iff, Nat.log2_lt hn]

theorem toNat_length (n : Int) : (length n).toNat = digitCount n % 2 ^ 32 := UInt32.toNat_ofNat'

/-- A number that is longer than a width is longer than it before the length wraps, too. -/
theorem not_within_of_lt_length {w : UInt32} (hw : w ≠ 0) {n : Int} (h : w < length n) :
    ¬Within w.toNat n := by
  have hpos : 0 < w.toNat := Nat.pos_of_ne_zero fun hz => hw (UInt32.toNat_inj.1 hz)
  rw [← digitCount_le_iff hpos]
  have hlt := UInt32.lt_iff_toNat_lt.1 h
  rw [toNat_length] at hlt
  have hmod := Nat.mod_le (digitCount n) (2 ^ 32)
  omega

/-- As long as lengths do not wrap, they are compared with a width as the magnitudes are. -/
theorem within_of_length_le {w : UInt32} (hw : w ≠ 0) {n : Int} (hn : digitCount n < 2 ^ 32)
    (h : length n ≤ w) : Within w.toNat n := by
  have hpos : 0 < w.toNat := Nat.pos_of_ne_zero fun hz => hw (UInt32.toNat_inj.1 hz)
  rw [← digitCount_le_iff hpos]
  have hle := UInt32.le_iff_toNat_le.1 h
  rwa [toNat_length, Nat.mod_eq_of_lt hn] at hle

end FlowAutomaton.Bits
