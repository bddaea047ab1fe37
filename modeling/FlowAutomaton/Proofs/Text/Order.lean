/-
Texts are ordered as their bytes are: what comes first by characters comes first by the bytes of
UTF-8. The bytes of a character give its code from the most significant bits on, and the first byte
of a longer form is greater than that of a shorter one.
-/
import FlowAutomaton.Text.Bytes

namespace FlowAutomaton.Text

/-! ## Characters -/

/-- Bytes with a smaller one in front come first, and the rest decides between equal ones. -/
theorem byte_cons_lt {m n : Nat} {l k : List UInt8} (hm : m < 256) (hn : n < 256)
    (h : m < n ∨ m = n ∧ l < k) : UInt8.ofNat m :: l < UInt8.ofNat n :: k := by
  rw [List.cons_lt_cons_iff, UInt8.lt_iff_toNat_lt, toNat_byte hm, toNat_byte hn,
    byte_eq_iff hm hn]
  exact h

/-- The last byte of characters that differ in the last six bits of their codes. -/
theorem last_lt {m n : Nat} (h : m < n) (he : m / 64 = n / 64) (l k : List UInt8) :
    UInt8.ofNat (m % 64 + 128) :: l < UInt8.ofNat (n % 64 + 128) :: k :=
  byte_cons_lt (by omega) (by omega) (.inl (by omega))

theorem last_two_lt {m n : Nat} (h : m < n) (he : m / 4096 = n / 4096) (l k : List UInt8) :
    UInt8.ofNat (m / 64 % 64 + 128) :: UInt8.ofNat (m % 64 + 128) :: l <
      UInt8.ofNat (n / 64 % 64 + 128) :: UInt8.ofNat (n % 64 + 128) :: k := by
  refine byte_cons_lt (by omega) (by omega) ?_
  by_cases h64 : m / 64 = n / 64
  · exact .inr ⟨by omega, last_lt h h64 l k⟩
  · exact .inl (by omega)

theorem last_three_lt {m n : Nat} (h : m < n) (he : m / 262144 = n / 262144) (l k : List UInt8) :
    UInt8.ofNat (m / 4096 % 64 + 128) :: UInt8.ofNat (m / 64 % 64 + 128) ::
        UInt8.ofNat (m % 64 + 128) :: l <
      UInt8.ofNat (n / 4096 % 64 + 128) :: UInt8.ofNat (n / 64 % 64 + 128) ::
        UInt8.ofNat (n % 64 + 128) :: k := by
  refine byte_cons_lt (by omega) (by omega) ?_
  by_cases h4096 : m / 4096 = n / 4096
  · exact .inr ⟨by omega, last_two_lt h h4096 l k⟩
  · exact .inl (by omega)

theorem encodeChar_lt {c d : Char} (h : c < d) (l k : List UInt8) :
    String.utf8EncodeChar c ++ l < String.utf8EncodeChar d ++ k := by
  have hlt : c.val.toNat < d.val.toNat := h
  have hd : d.val.toNat < 0x110000 := by
    have valid : d.val.toNat < 0xD800 ∨ (0xDFFF < d.val.toNat ∧ d.val.toNat < 0x110000) := d.valid
    omega
  unfold String.utf8EncodeChar
  generalize c.val.toNat = m at *
  generalize d.val.toNat = n at *
  -- a form that is not longer either has a smaller first byte, or the bits that follow decide
  by_cases hm1 : m ≤ 127
  · simp only [hm1, if_true, List.cons_append, List.nil_append]
    split
    · exact byte_cons_lt (by omega) (by omega) (.inl hlt)
    · split
      · exact byte_cons_lt (by omega) (by omega) (.inl (by omega))
      · split
        · exact byte_cons_lt (by omega) (by omega) (.inl (by omega))
        · exact byte_cons_lt (by omega) (by omega) (.inl (by omega))
  have hn1 : ¬n ≤ 127 := by omega
  simp only [hm1, hn1, if_false]
  by_cases hm2 : m ≤ 2047
  · simp only [hm2, if_true, List.cons_append, List.nil_append]
    split
    · refine byte_cons_lt (by omega) (by omega) ?_
      by_cases h64 : m / 64 = n / 64
      · exact .inr ⟨by omega, last_lt hlt h64 l k⟩
      · exact .inl (by omega)
    · split
      · exact byte_cons_lt (by omega) (by omega) (.inl (by omega))
      · exact byte_cons_lt (by omega) (by omega) (.inl (by omega))
  have hn2 : ¬n ≤ 2047 := by omega
  simp only [hm2, hn2, if_false]
  by_cases hm3 : m ≤ 65535
  · simp only [hm3, if_true, List.cons_append, List.nil_append]
    split
    · refine byte_cons_lt (by omega) (by omega) ?_
      by_cases h4096 : m / 4096 = n / 4096
      · exact .inr ⟨by omega, last_two_lt hlt h4096 l k⟩
      · exact .inl (by omega)
    · exact byte_cons_lt (by omega) (by omega) (.inl (by omega))
  have hn3 : ¬n ≤ 65535 := by omega
  simp only [hm3, hn3, if_false, List.cons_append, List.nil_append]
  refine byte_cons_lt (by omega) (by omega) ?_
  by_cases hlead : m / 262144 = n / 262144
  · exact .inr ⟨by omega, last_three_lt hlt hlead l k⟩
  · exact .inl (by omega)

theorem encodeChar_ne_nil (c : Char) : String.utf8EncodeChar c ≠ [] := by
  unfold String.utf8EncodeChar
  simp only
  split
  · simp
  · split
    · simp
    · split
      · simp
      · simp

/-! ## Texts -/

theorem encode_lt {l m : List Char} (h : l < m) :
    l.flatMap String.utf8EncodeChar < m.flatMap String.utf8EncodeChar := by
  change List.Lex (· < ·) l m at h
  induction h with
  | @nil c m =>
    rw [List.flatMap_nil, List.flatMap_cons]
    cases hc : String.utf8EncodeChar c with
    | nil => exact absurd hc (encodeChar_ne_nil c)
    | cons b bs => exact List.Lex.nil
  | @rel c l d m hcd =>
    rw [List.flatMap_cons, List.flatMap_cons]
    exact encodeChar_lt hcd _ _
  | cons h ih =>
    rw [List.flatMap_cons, List.flatMap_cons]
    exact List.append_left_lt ih

theorem toBytes_lt {a b : String} (h : compare a b = .lt) : toBytes a < toBytes b :=
  encode_lt (String.lt_iff.1 (compareOfLessAndEq_eq_lt.1 h))

/-- The order of texts is that of their bytes. -/
theorem toBytes_lt_iff {a b : String} : toBytes a < toBytes b ↔ compare a b = .lt := by
  refine ⟨fun h => ?_, toBytes_lt⟩
  cases hc : compare a b with
  | lt => rfl
  | eq =>
    rw [Std.LawfulEqCmp.eq_of_compare hc] at h
    exact absurd h (List.lt_irrefl _)
  | gt => exact absurd h (List.lt_asymm (toBytes_lt (Std.OrientedCmp.lt_of_gt hc)))

end FlowAutomaton.Text
