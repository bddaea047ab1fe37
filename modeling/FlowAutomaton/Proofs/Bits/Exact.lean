/-
Where lengths in bits are exact. The length of a number is the number of its binary digits as long as
that fits into 32 bits, and then it grows with the magnitude and is never zero. Numbers that are longer
have a length that is too small; a shift can make them, and the least of them has the length zero.
-/
import FlowAutomaton.Proofs.Bits.Length

namespace FlowAutomaton.Bits

/-- A magnitude has some number of binary digits; zero has one. -/
def HasLength (n : Int) (k : Nat) : Prop :=
  if n = 0 then k = 1 else 2 ^ (k - 1) ≤ n.natAbs ∧ n.natAbs < 2 ^ k

variable {m n : Int}

/-! ## The number of digits -/

theorem hasLength_digitCount (n : Int) : HasLength n (digitCount n) := by
  unfold HasLength digitCount
  split
  · rename_i hn
    rw [hn]
    decide
  · rename_i hn
    have habs : n.natAbs ≠ 0 := Int.natAbs_ne_zero.2 hn
    exact ⟨Nat.log2_self_le habs, Nat.lt_log2_self⟩

theorem HasLength.ne_zero {k : Nat} (h : HasLength n k) : k ≠ 0 := by
  rintro rfl
  unfold HasLength at h
  split at h
  · cases h
  · obtain ⟨hle, hlt⟩ := h
    exact absurd hlt (Nat.not_lt.2 hle)

/-- Of two magnitudes, the one that is not larger is not longer. -/
theorem HasLength.mono {j k : Nat} (hm : HasLength m j) (hn : HasLength n k)
    (h : m.natAbs ≤ n.natAbs) : j ≤ k := by
  have hpos : 0 < k := Nat.pos_of_ne_zero hn.ne_zero
  unfold HasLength at hm hn
  split at hm
  · omega
  · rename_i hm0
    have hn0 : n ≠ 0 := by omega
    rw [if_neg hn0] at hn
    -- otherwise the larger number would be below the least one of as many digits as the smaller
    by_contra hlt
    have hpow : 2 ^ k ≤ 2 ^ (j - 1) := Nat.pow_le_pow_right (by decide) (by omega)
    omega

theorem hasLength_iff {k : Nat} : HasLength n k ↔ k = digitCount n := by
  constructor
  · intro h
    have hd := hasLength_digitCount n
    exact Nat.le_antisymm (h.mono hd le_rfl) (hd.mono h le_rfl)
  · rintro rfl
    exact hasLength_digitCount n

/-! ## Shifts -/

theorem natAbs_shiftUp (n : Int) (k : UInt32) : (shiftUp n k).natAbs = n.natAbs * 2 ^ k.toNat := by
  rw [shiftUp, Int.natAbs_mul, Int.natAbs_natCast]
  rfl

theorem shiftUp_ne_zero (hn : n ≠ 0) (k : UInt32) : shiftUp n k ≠ 0 := by
  rw [← Int.natAbs_ne_zero, natAbs_shiftUp]
  exact Nat.mul_ne_zero (Int.natAbs_ne_zero.2 hn) (Nat.two_pow_pos _).ne'

/-- A shift makes a number longer by as many digits. -/
theorem hasLength_shiftUp (hn : n ≠ 0) (k : UInt32) :
    HasLength (shiftUp n k) (digitCount n + k.toNat) := by
  have hlength := hasLength_digitCount n
  have hpos : 0 < digitCount n := Nat.pos_of_ne_zero hlength.ne_zero
  unfold HasLength at hlength ⊢
  rw [if_neg hn] at hlength
  rw [if_neg (shiftUp_ne_zero hn k), natAbs_shiftUp]
  constructor
  · rw [Nat.sub_add_comm hpos, pow_add]
    exact Nat.mul_le_mul_right _ hlength.1
  · rw [pow_add]
    exact Nat.mul_lt_mul_of_pos_right hlength.2 (Nat.two_pow_pos _)

theorem digitCount_shiftUp (hn : n ≠ 0) (k : UInt32) :
    digitCount (shiftUp n k) = digitCount n + k.toNat :=
  (hasLength_iff.1 (hasLength_shiftUp hn k)).symm

/-! ## Lengths of 32 bits -/

theorem digitCount_lt_iff : digitCount n < 2 ^ 32 ↔ Within (2 ^ 32 - 1) n := by
  rw [← digitCount_le_iff (by decide)]
  exact Nat.lt_iff_le_pred (by decide)

theorem toNat_length_of_within (h : Within (2 ^ 32 - 1) n) : (length n).toNat = digitCount n := by
  rw [toNat_length, Nat.mod_eq_of_lt (digitCount_lt_iff.2 h)]

theorem Within.mono {w : Nat} (h : Within w n) (hle : m.natAbs ≤ n.natAbs) : Within w m :=
  within_iff_natAbs_lt.2 (Nat.lt_of_le_of_lt hle (within_iff_natAbs_lt.1 h))

theorem hasLength_length_iff : HasLength n (length n).toNat ↔ Within (2 ^ 32 - 1) n := by
  rw [hasLength_iff, toNat_length, ← digitCount_lt_iff]
  exact Nat.mod_eq_iff_lt (by decide)

theorem length_eq_zero_iff : length n = 0 ↔ 2 ^ 32 ∣ digitCount n := by
  rw [← UInt32.toNat_inj, toNat_length, Nat.dvd_iff_mod_eq_zero]
  rfl

/-- The length of a number is the number of its binary digits with 32 bits of it kept. So it is exact
for the magnitudes below `2 ^ (2 ^ 32 - 1)` and for no others. Up to there it is not zero and grows
with the magnitude; beyond, it is zero for every multiple of `2 ^ 32` digits, which shifts can make. -/
theorem length_exact_iff (n : Int) :
    HasLength n (digitCount n) ∧ (length n).toNat = digitCount n % 2 ^ 32 ∧
      (HasLength n (length n).toNat ↔ Within (2 ^ 32 - 1) n) ∧
      (Within (2 ^ 32 - 1) n →
        length n ≠ 0 ∧ ∀ m : Int, m.natAbs ≤ n.natAbs → length m ≤ length n) ∧
      (length n = 0 ↔ 2 ^ 32 ∣ digitCount n) ∧
      (n ≠ 0 → ∀ k, digitCount (shiftUp n k) = digitCount n + k.toNat) := by
  refine ⟨hasLength_digitCount n, toNat_length n, hasLength_length_iff, fun hn => ⟨?_, ?_⟩,
    length_eq_zero_iff, digitCount_shiftUp⟩
  · rintro hzero
    have hlength := hasLength_length_iff.2 hn
    rw [hzero] at hlength
    exact hlength.ne_zero rfl
  · intro m hle
    rw [UInt32.le_iff_toNat_le, toNat_length_of_within hn, toNat_length_of_within (hn.mono hle)]
    exact (hasLength_digitCount m).mono (hasLength_digitCount n) hle

theorem natAbs_one_le (hn : n ≠ 0) : (1 : Int).natAbs ≤ n.natAbs := by
  omega

-- these numbers fill half a gigabyte, so they are reasoned about and never evaluated

/-- The least number with the longest exact length. -/
@[irreducible] def longest : Int := shiftUp 1 4294967294

/-- The least number that is longer. -/
@[irreducible] def tooLong : Int := shiftUp 1 4294967295

theorem longest_ne_zero : longest ≠ 0 := by
  rw [longest]
  exact shiftUp_ne_zero Int.one_ne_zero 4294967294

theorem digitCount_longest : digitCount longest = 4294967295 := by
  rw [longest]
  exact digitCount_shiftUp Int.one_ne_zero 4294967294

theorem tooLong_ne_zero : tooLong ≠ 0 := by
  rw [tooLong]
  exact shiftUp_ne_zero Int.one_ne_zero 4294967295

theorem digitCount_tooLong : digitCount tooLong = 2 ^ 32 := by
  rw [tooLong]
  exact digitCount_shiftUp Int.one_ne_zero 4294967295

theorem length_exact_iff_longest :
    Within (2 ^ 32 - 1) longest ∧ length longest = 4294967295 ∧
      HasLength longest (length longest).toNat ∧ length 1 ≤ length longest ∧ longest ≠ 0 ∧
      digitCount (shiftUp longest 1) = 2 ^ 32 := by
  have hne : longest ≠ 0 := longest_ne_zero
  have hwithin : Within (2 ^ 32 - 1) longest := by
    rw [← digitCount_lt_iff, digitCount_longest]
    decide
  have hle : (1 : Int).natAbs ≤ longest.natAbs := natAbs_one_le hne
  obtain ⟨-, hlength, hexact, hmono, -, hshift⟩ := length_exact_iff longest
  rw [digitCount_longest] at hlength
  refine ⟨hwithin, UInt32.toNat_inj.1 hlength, hexact.2 hwithin, (hmono hwithin).2 1 hle, hne, ?_⟩
  rw [hshift hne, digitCount_longest]
  rfl

/-- The least number with too many digits has the length zero, which is less than that of one. -/
theorem length_tooLong :
    HasLength tooLong (2 ^ 32) ∧ length tooLong = 0 ∧ ¬HasLength tooLong (length tooLong).toNat ∧
      (1 : Int).natAbs ≤ tooLong.natAbs ∧ length tooLong < length 1 := by
  have hne : tooLong ≠ 0 := tooLong_ne_zero
  have hzero : length tooLong = 0 := by
    rw [length_eq_zero_iff, digitCount_tooLong]
  refine ⟨hasLength_iff.2 digitCount_tooLong.symm, hzero, ?_, natAbs_one_le hne, ?_⟩
  · rw [hzero]
    exact fun h => h.ne_zero rfl
  · rw [hzero]
    decide

end FlowAutomaton.Bits
