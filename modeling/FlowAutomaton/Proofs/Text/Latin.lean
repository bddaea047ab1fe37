/-
Bytes as characters: each byte stands for the character that has it as its code. A text that is read
byte by byte is seen in that way. Its characters below 128 are there as they are, and every other one
is spread over several characters from 128 on.
-/
import FlowAutomaton.Proofs.Text.Order
import Mathlib.Tactic.ByContra

namespace FlowAutomaton.Text

/-- The character of which the code is a byte. -/
def charOfByte (b : UInt8) : Char := Char.ofNat b.toNat

/-- Bytes as the characters of which they are the codes. -/
def latin (bytes : List UInt8) : List Char := bytes.map charOfByte

/-- Characters as they are seen in their bytes. -/
def spread (cs : List Char) : List Char := latin (cs.flatMap String.utf8EncodeChar)

theorem toNat_charOfByte (b : UInt8) : (charOfByte b).toNat = b.toNat := by
  have hlt : b.toNat < 256 := b.toNat_lt
  have hvalid : b.toNat.isValidChar := .inl (by omega)
  rw [charOfByte, Char.ofNat, dif_pos hvalid]
  rfl

/-! ## One character -/

theorem latin_encodeChar_of_ascii {c : Char} (h : c.toNat < 128) :
    latin (String.utf8EncodeChar c) = [c] := by
  have hval : c.val.toNat = c.toNat := rfl
  unfold String.utf8EncodeChar
  simp only [hval]
  rw [if_pos (by omega)]
  have hbyte : (UInt8.ofNat c.toNat).toNat = c.toNat := toNat_byte (by omega)
  exact congrArg (fun n => [Char.ofNat n]) hbyte |>.trans (by rw [Char.ofNat_toNat])

theorem le_of_mem_latin_encodeChar {c d : Char} (h : 128 ≤ c.toNat)
    (hd : d ∈ latin (String.utf8EncodeChar c)) : 128 ≤ d.toNat := by
  obtain ⟨b, hb, rfl⟩ := List.mem_map.1 hd
  rw [toNat_charOfByte]
  have hval : c.val.toNat = c.toNat := rfl
  have large {n : Nat} (hn : n < 256) (h : 128 ≤ n) : 128 ≤ (UInt8.ofNat n).toNat := by
    rwa [toNat_byte hn]
  have hlt : c.toNat < 0x110000 := by
    have valid : c.toNat < 0xD800 ∨ (0xDFFF < c.toNat ∧ c.toNat < 0x110000) := c.valid
    omega
  unfold String.utf8EncodeChar at hb
  simp only [hval] at hb
  -- the first byte of a longer form is 192 at least, and the others are 128 at least
  rw [if_neg (by omega)] at hb
  split at hb
  · simp only [List.mem_cons, List.not_mem_nil, or_false] at hb
    rcases hb with rfl | rfl
    · exact large (by omega) (by omega)
    · exact large (by omega) (by omega)
  · split at hb
    · simp only [List.mem_cons, List.not_mem_nil, or_false] at hb
      rcases hb with rfl | rfl | rfl
      · exact large (by omega) (by omega)
      · exact large (by omega) (by omega)
      · exact large (by omega) (by omega)
    · simp only [List.mem_cons, List.not_mem_nil, or_false] at hb
      rcases hb with rfl | rfl | rfl | rfl
      · exact large (by omega) (by omega)
      · exact large (by omega) (by omega)
      · exact large (by omega) (by omega)
      · exact large (by omega) (by omega)

/-! ## Characters in a row -/

theorem spread_cons (c : Char) (cs : List Char) :
    spread (c :: cs) = latin (String.utf8EncodeChar c) ++ spread cs := by
  rw [spread, spread, latin, latin, latin, List.flatMap_cons, List.map_append]

theorem spread_cons_of_ascii {c : Char} (h : c.toNat < 128) (cs : List Char) :
    spread (c :: cs) = c :: spread cs := by
  rw [spread_cons, latin_encodeChar_of_ascii h, List.singleton_append]

theorem latin_encodeChar_eq_cons (c : Char) :
    ∃ d ds, latin (String.utf8EncodeChar c) = d :: ds := by
  obtain ⟨b, bs, hb⟩ := List.exists_cons_of_ne_nil (encodeChar_ne_nil c)
  exact ⟨charOfByte b, latin bs, by rw [hb, latin, List.map_cons, latin]⟩

/-- A character below 128 that is seen in front is there. -/
theorem eq_cons_of_spread_eq_cons {cs ds : List Char} {d : Char} (hd : d.toNat < 128)
    (h : spread cs = d :: ds) : ∃ cs', cs = d :: cs' ∧ spread cs' = ds := by
  cases cs with
  | nil => cases h
  | cons c cs =>
    by_cases hc : c.toNat < 128
    · rw [spread_cons_of_ascii hc] at h
      obtain ⟨rfl, hds⟩ := List.cons.inj h
      exact ⟨cs, rfl, hds⟩
    · obtain ⟨e, es, he⟩ := latin_encodeChar_eq_cons c
      rw [spread_cons, he, List.cons_append] at h
      have hlarge : 128 ≤ e.toNat :=
        le_of_mem_latin_encodeChar (Nat.le_of_not_lt hc) (he ▸ List.mem_cons_self)
      rw [(List.cons.inj h).1] at hlarge
      omega

theorem spread_eq_nil_iff {cs : List Char} : spread cs = [] ↔ cs = [] := by
  constructor
  · intro h
    cases cs with
    | nil => rfl
    | cons c cs =>
      obtain ⟨d, ds, hd⟩ := latin_encodeChar_eq_cons c
      rw [spread_cons, hd] at h
      cases h
  · rintro rfl
    rfl

/-- Characters below 128 are seen as they are. -/
theorem spread_of_ascii {cs : List Char} (h : ∀ c ∈ cs, c.toNat < 128) : spread cs = cs := by
  induction cs with
  | nil => rfl
  | cons c cs ih =>
    obtain ⟨hc, hcs⟩ := List.forall_mem_cons.1 h
    rw [spread_cons_of_ascii hc, ih hcs]

/-- If all that is seen is below 128, so are the characters. -/
theorem ascii_of_spread {cs : List Char} (h : ∀ d ∈ spread cs, d.toNat < 128) :
    ∀ c ∈ cs, c.toNat < 128 := by
  intro c hc
  by_contra hlarge
  obtain ⟨d, ds, hd⟩ := latin_encodeChar_eq_cons c
  have hmem : d ∈ latin (String.utf8EncodeChar c) := hd ▸ List.mem_cons_self
  have hseen : d ∈ spread cs := by
    obtain ⟨b, hb, rfl⟩ := List.mem_map.1 hmem
    exact List.mem_map.2 ⟨b, List.mem_flatMap.2 ⟨c, hc, hb⟩, rfl⟩
  have hsmall := h d hseen
  have hlarge' := le_of_mem_latin_encodeChar (Nat.le_of_not_lt hlarge) hmem
  omega

/-- What is seen of a text up to its first NUL is the text up to there. -/
theorem takeWhile_spread (cs : List Char) :
    (spread cs).takeWhile (· ≠ '\x00') = spread (cs.takeWhile (· ≠ '\x00')) := by
  induction cs with
  | nil => rfl
  | cons c cs ih =>
    by_cases hc : c.toNat < 128
    · rw [spread_cons_of_ascii hc, List.takeWhile_cons, List.takeWhile_cons]
      split
      · rw [spread_cons_of_ascii hc, ih]
      · rfl
    · have hne : c ≠ '\x00' := by
        rintro rfl
        exact hc (by decide)
      have hall : ∀ d ∈ latin (String.utf8EncodeChar c), decide (d ≠ '\x00') = true := by
        intro d hd
        have hlarge := le_of_mem_latin_encodeChar (Nat.le_of_not_lt hc) hd
        rw [decide_eq_true_eq]
        rintro rfl
        exact absurd hlarge (by decide)
      rw [spread_cons, List.takeWhile_append_of_pos hall, ih, List.takeWhile_cons,
        if_pos (decide_eq_true hne), spread_cons]

end FlowAutomaton.Text
