/-
Text as bytes in UTF-8, and the text that bytes show. Bytes that are no characters are shown as
replacement characters: one for each byte that starts no character, and one for the longest start
of a character that breaks off. Text that was written as bytes is shown as it was.
-/

namespace FlowAutomaton.Text

/-! ## Writing -/

/-- The bytes of a text. -/
def toBytes (s : String) : List UInt8 := s.toList.flatMap String.utf8EncodeChar

/-! ## Showing -/

/-- What is shown for bytes that are no character. -/
def replacement : Char := '\uFFFD'

/-- A character of which bytes are still to come. -/
structure Pending where
  /-- The bits that the bytes so far have given. -/
  code : Nat
  /-- How many bytes are to come after the next one. -/
  more : Nat
  /-- The least byte that can come next. -/
  low : UInt8
  /-- The greatest byte that can come next. -/
  high : UInt8
  deriving DecidableEq, Repr

/-- A byte where a character starts: what it shows by itself and what it leaves open. The bounds
of the second byte leave out longer forms of short codes, surrogates and codes that are too
great. -/
def start (b : UInt8) : List Char × Option Pending :=
  if b < 0x80 then ([Char.ofNat b.toNat], none)
  else if 0xC2 ≤ b ∧ b < 0xE0 then ([], some ⟨b.toNat - 0xC0, 0, 0x80, 0xBF⟩)
  else if 0xE0 ≤ b ∧ b < 0xF0 then
    ([], some ⟨b.toNat - 0xE0, 1, if b = 0xE0 then 0xA0 else 0x80,
      if b = 0xED then 0x9F else 0xBF⟩)
  else if 0xF0 ≤ b ∧ b < 0xF5 then
    ([], some ⟨b.toNat - 0xF0, 2, if b = 0xF0 then 0x90 else 0x80,
      if b = 0xF4 then 0x8F else 0xBF⟩)
  else ([replacement], none)

/-- A byte inside a character, which it completes, continues or breaks off. -/
def Pending.next (p : Pending) (b : UInt8) : List Char × Option Pending :=
  if p.low ≤ b ∧ b ≤ p.high then
    let code := p.code * 64 + (b.toNat - 0x80)
    match p.more with
    | 0 => ([Char.ofNat code], none)
    | more + 1 => ([], some ⟨code, more, 0x80, 0xBF⟩)
  else
    let (shown, left) := start b
    (replacement :: shown, left)

/-- What bytes show after a character that may be open. -/
def shown : Option Pending → List UInt8 → List Char
  | none, [] => []
  | some _, [] => [replacement]
  | none, b :: rest => (start b).1 ++ shown (start b).2 rest
  | some p, b :: rest => (p.next b).1 ++ shown (p.next b).2 rest

/-- The text that bytes show. -/
def ofBytes (bytes : List UInt8) : String := String.ofList (shown none bytes)

/-! ## Text that was written is shown as it was -/

theorem toNat_byte {n : Nat} (h : n < 256) : (UInt8.ofNat n).toNat = n := by
  simp [UInt8.toNat_ofNat', Nat.mod_eq_of_lt h]

theorem toNat_tail (n : Nat) : (UInt8.ofNat (n % 64 + 128)).toNat = n % 64 + 128 :=
  toNat_byte (by omega)

theorem byte_eq_iff {n m : Nat} (hn : n < 256) (hm : m < 256) :
    UInt8.ofNat n = UInt8.ofNat m ↔ n = m := by
  rw [← UInt8.toNat_inj, toNat_byte hn, toNat_byte hm]

theorem start_two {n : Nat} (h : 0x80 ≤ n) (h' : n < 0x800) :
    start (UInt8.ofNat (n / 64 % 32 + 192)) = ([], some ⟨n / 64, 0, 0x80, 0xBF⟩) := by
  have hb : (UInt8.ofNat (n / 64 % 32 + 192)).toNat = n / 64 % 32 + 192 := toNat_byte (by omega)
  rw [start, if_neg, if_pos] <;>
    simp only [UInt8.lt_iff_toNat_lt, UInt8.le_iff_toNat_le, hb, Prod.mk.injEq] <;> simp <;> omega

theorem start_three {n : Nat} (h : 0x800 ≤ n) (h' : n < 0x10000) :
    start (UInt8.ofNat (n / 4096 % 16 + 224)) =
      ([], some ⟨n / 4096, 1, if n / 4096 = 0 then 0xA0 else 0x80,
        if n / 4096 = 13 then 0x9F else 0xBF⟩) := by
  have hb : (UInt8.ofNat (n / 4096 % 16 + 224)).toNat = n / 4096 % 16 + 224 :=
    toNat_byte (by omega)
  have least : UInt8.ofNat (n / 4096 % 16 + 224) = 0xE0 ↔ n / 4096 = 0 :=
    (byte_eq_iff (m := 0xE0) (by omega) (by omega)).trans (by omega)
  have surrogate : UInt8.ofNat (n / 4096 % 16 + 224) = 0xED ↔ n / 4096 = 13 :=
    (byte_eq_iff (m := 0xED) (by omega) (by omega)).trans (by omega)
  rw [start, if_neg, if_neg, if_pos] <;>
    simp only [UInt8.lt_iff_toNat_lt, UInt8.le_iff_toNat_le, hb, Prod.mk.injEq, least,
      surrogate] <;> simp <;> omega

theorem start_four {n : Nat} (h : 0x10000 ≤ n) (h' : n < 0x110000) :
    start (UInt8.ofNat (n / 262144 % 8 + 240)) =
      ([], some ⟨n / 262144, 2, if n / 262144 = 0 then 0x90 else 0x80,
        if n / 262144 = 4 then 0x8F else 0xBF⟩) := by
  have hb : (UInt8.ofNat (n / 262144 % 8 + 240)).toNat = n / 262144 % 8 + 240 :=
    toNat_byte (by omega)
  have least : UInt8.ofNat (n / 262144 % 8 + 240) = 0xF0 ↔ n / 262144 = 0 :=
    (byte_eq_iff (m := 0xF0) (by omega) (by omega)).trans (by omega)
  have greatest : UInt8.ofNat (n / 262144 % 8 + 240) = 0xF4 ↔ n / 262144 = 4 :=
    (byte_eq_iff (m := 0xF4) (by omega) (by omega)).trans (by omega)
  rw [start, if_neg, if_neg, if_neg, if_pos] <;>
    simp only [UInt8.lt_iff_toNat_lt, UInt8.le_iff_toNat_le, hb, Prod.mk.injEq, least,
      greatest] <;> simp <;> omega

/-- A byte within the bounds, of which more are to come after it. -/
theorem shown_more (code more n : Nat) {low high : UInt8} (rest : List UInt8)
    (hl : low.toNat ≤ n % 64 + 128) (hh : n % 64 + 128 ≤ high.toNat) :
    shown (some ⟨code, more + 1, low, high⟩) (UInt8.ofNat (n % 64 + 128) :: rest) =
      shown (some ⟨code * 64 + n % 64, more, 0x80, 0xBF⟩) rest := by
  rw [← toNat_tail n] at hl hh
  rw [shown, Pending.next, if_pos ⟨UInt8.le_iff_toNat_le.2 hl, UInt8.le_iff_toNat_le.2 hh⟩,
    toNat_tail, show n % 64 + 128 - 0x80 = n % 64 by omega]
  rfl

/-- The last byte of a character. -/
theorem shown_last (code n : Nat) {low high : UInt8} (rest : List UInt8)
    (hl : low.toNat ≤ n % 64 + 128) (hh : n % 64 + 128 ≤ high.toNat) :
    shown (some ⟨code, 0, low, high⟩) (UInt8.ofNat (n % 64 + 128) :: rest) =
      Char.ofNat (code * 64 + n % 64) :: shown none rest := by
  rw [← toNat_tail n] at hl hh
  rw [shown, Pending.next, if_pos ⟨UInt8.le_iff_toNat_le.2 hl, UInt8.le_iff_toNat_le.2 hh⟩,
    toNat_tail, show n % 64 + 128 - 0x80 = n % 64 by omega]
  rfl

theorem tail_bounds (n : Nat) :
    (0x80 : UInt8).toNat ≤ n % 64 + 128 ∧ n % 64 + 128 ≤ (0xBF : UInt8).toNat := by
  simp; omega

theorem shown_encodeChar (c : Char) (rest : List UInt8) :
    shown none (String.utf8EncodeChar c ++ rest) = c :: shown none rest := by
  have valid : c.toNat < 0xD800 ∨ (0xDFFF < c.toNat ∧ c.toNat < 0x110000) := c.valid
  have code : Char.ofNat c.toNat = c := Char.ofNat_toNat c
  have value : c.val.toNat = c.toNat := rfl
  unfold String.utf8EncodeChar
  simp only [value]
  generalize c.toNat = n at *
  split
  · rename_i one
    have hb : (UInt8.ofNat n).toNat = n := toNat_byte (by omega)
    rw [List.cons_append, List.nil_append, shown, start,
      if_pos (by rw [UInt8.lt_iff_toNat_lt, hb]; simp; omega), hb, code]
    rfl
  · split
    · rw [List.cons_append, shown, start_two (n := n) (by omega) (by omega)]
      simp only [List.cons_append, List.nil_append]
      rw [shown_last _ _ _ (tail_bounds n).1 (tail_bounds n).2,
        show n / 64 * 64 + n % 64 = n by omega, code]
    · split
      · rw [List.cons_append, shown, start_three (n := n) (by omega) (by omega)]
        simp only [List.cons_append, List.nil_append]
        rw [shown_more _ _ _ _ (by split <;> simp; omega) (by split <;> simp <;> omega),
          shown_last _ _ _ (tail_bounds n).1 (tail_bounds n).2,
          show (n / 4096 * 64 + n / 64 % 64) * 64 + n % 64 = n by omega, code]
      · rw [List.cons_append, shown, start_four (n := n) (by omega) (by omega)]
        simp only [List.cons_append, List.nil_append]
        rw [shown_more _ _ _ _ (by split <;> simp; omega) (by split <;> simp <;> omega),
          shown_more _ _ _ _ (tail_bounds _).1 (tail_bounds _).2,
          shown_last _ _ _ (tail_bounds n).1 (tail_bounds n).2,
          show ((n / 262144 * 64 + n / 4096 % 64) * 64 + n / 64 % 64) * 64 + n % 64 = n by omega,
          code]

/-- Text that was written as bytes is shown as it was. -/
theorem ofBytes_toBytes (s : String) : ofBytes (toBytes s) = s := by
  have encoded (l : List Char) : shown none (l.flatMap String.utf8EncodeChar) = l := by
    induction l with
    | nil => rfl
    | cons c l ih => rw [List.flatMap_cons, shown_encodeChar, ih]
  rw [ofBytes, toBytes, encoded, String.ofList_toList]

end FlowAutomaton.Text
