/-
A number that is written in a base is read back from that base: `parse base (render base n)` is
`n` for every integer and every base from 2 to 62. The digits of a number denote it, each digit is
read back from its character, and no character of a number is one that readers skip or stop at.
-/
import FlowAutomaton.Numeral
import Mathlib.Data.List.Induction
import Mathlib.Data.List.TakeWhile
import Mathlib.Data.Nat.Digits.Defs

namespace FlowAutomaton.Numeral

/-! ## Digits -/

/-- The number of some digits is their positional value. -/
theorem ofDigits_eq_positional (base : Nat) (ds : List Nat) :
    ofDigits base ds = Nat.ofDigits base ds.reverse := by
  induction ds using List.reverseRecOn with
  | nil => rfl
  | append_singleton ds d ih =>
    rw [ofDigits, List.foldl_append, List.foldl_cons, List.foldl_nil, ← ofDigits, ih,
      List.reverse_append, List.reverse_singleton, List.singleton_append, Nat.ofDigits_cons,
      Nat.mul_comm, Nat.add_comm]

theorem digitsOnto_eq {base : Nat} (hb : 2 ≤ base) :
    ∀ (fuel n : Nat) (ds : List Nat), n ≠ 0 → n < fuel →
      digitsOnto base fuel n ds = (Nat.digits base n).reverse ++ ds
  | 0, _, _, _, h => absurd h (Nat.not_lt_zero _)
  | fuel + 1, n, ds, hn, h => by
    rw [digitsOnto]
    split
    · rename_i hlt
      rw [Nat.digits_of_lt base n hn hlt]
      rfl
    · rename_i hge
      have hpos : n / base ≠ 0 := (Nat.div_pos (by omega) (by omega)).ne'
      -- what is left is smaller, so one unit of fuel is enough for this digit
      have hlt : n / base < n := Nat.div_lt_self (by omega) hb
      rw [digitsOnto_eq hb fuel _ _ hpos (by omega), Nat.digits_eq_cons_digits_div hb hn,
        List.reverse_cons, List.append_assoc]
      rfl

section

variable {base : Nat} (hb : 2 ≤ base) (n : Nat)

include hb

/-- The digits of a number, from the most significant one; zero has one digit, too. -/
theorem digits_eq : digits base n = if n = 0 then [0] else (Nat.digits base n).reverse := by
  split
  · rename_i hn
    rw [hn, digits, digitsOnto, if_pos (by omega)]
  · rename_i hn
    rw [digits, digitsOnto_eq hb _ n [] hn (Nat.lt_succ_self n), List.append_nil]

theorem ofDigits_digits : ofDigits base (digits base n) = n := by
  rw [digits_eq hb]
  split
  · rename_i hn
    simp [ofDigits, hn]
  · rw [ofDigits_eq_positional, List.reverse_reverse, Nat.ofDigits_digits]

theorem lt_of_mem_digits : ∀ d ∈ digits base n, d < base := by
  intro d hd
  rw [digits_eq hb] at hd
  split at hd
  · rw [List.mem_singleton.1 hd]
    omega
  · exact Nat.digits_lt_base hb (List.mem_reverse.1 hd)

theorem digits_ne_nil : digits base n ≠ [] := by
  rw [digits_eq hb]
  split
  · simp
  · rename_i hn
    simpa [Nat.digits_ne_nil_iff_ne_zero] using hn

end

/-! ## Characters -/

theorem letterValue_of_blank (base : Nat) {c : Char} (h : Text.isBlank c = true) :
    letterValue base c = none := by
  simp only [Text.isBlank, Bool.or_eq_true, decide_eq_true_eq] at h
  rcases h with ((((rfl | rfl) | rfl) | rfl) | rfl) | rfl <;> rfl

theorem letterValue_digitChar_small : ∀ d < 36, letterValue 36 (digitChar 36 d) = some d := by
  decide +kernel

theorem letterValue_digitChar_large : ∀ d < 62, letterValue 62 (digitChar 62 d) = some d := by
  decide +kernel

/-- A digit is read back from its character. -/
theorem digitValue_digitChar {base d : Nat} (hd : d < base) (hb : base ≤ 62) :
    digitValue base (digitChar base d) = some d := by
  have h : letterValue base (digitChar base d) = some d := by
    -- only two alphabets are in use
    by_cases hs : base ≤ 36
    · have hc : digitChar base d = digitChar 36 d := by simp [digitChar, hs]
      rw [hc, ← letterValue_digitChar_small d (by omega)]
      simp [letterValue, hs]
    · have hc : digitChar base d = digitChar 62 d := by simp [digitChar, hs]
      rw [hc, ← letterValue_digitChar_large d (by omega)]
      simp [letterValue, hs]
  simp [digitValue, h, hd]

/-- A character that some base has as a digit. -/
def IsDigit (base : Nat) (c : Char) : Prop := ∃ d, digitValue base c = some d

theorem IsDigit.letterValue_ne_none {base : Nat} {c : Char} (h : IsDigit base c) :
    letterValue base c ≠ none := by
  obtain ⟨d, hd⟩ := h
  intro hn
  simp [digitValue, hn] at hd

theorem IsDigit.not_blank {base : Nat} {c : Char} (h : IsDigit base c) :
    Text.isBlank c = false := by
  rw [← Bool.not_eq_true]
  exact fun hb => h.letterValue_ne_none (letterValue_of_blank base hb)

theorem IsDigit.ne_minus {base : Nat} {c : Char} (h : IsDigit base c) : c ≠ '-' := by
  rintro rfl
  exact h.letterValue_ne_none rfl

theorem IsDigit.ne_nul {base : Nat} {c : Char} (h : IsDigit base c) : c ≠ '\x00' := by
  rintro rfl
  exact h.letterValue_ne_none rfl

theorem IsDigit.ne_mark {c : Char} (h : IsDigit 16 c) : c ≠ 'x' ∧ c ≠ 'X' := by
  obtain ⟨d, hd⟩ := h
  constructor
  · rintro rfl
    cases hd
  · rintro rfl
    cases hd

/-! ## Natural numbers -/

section

variable {base : Nat} (hb : 2 ≤ base) (hb' : base ≤ 62) (n : Nat)

include hb hb'

theorem isDigit_of_mem_natChars : ∀ c ∈ natChars base n, IsDigit base c := by
  intro c hc
  obtain ⟨d, hd, rfl⟩ := List.mem_map.1 hc
  exact ⟨d, digitValue_digitChar (lt_of_mem_digits hb n d hd) hb'⟩

omit hb in
theorem mapM_digitValue_digitChar {ds : List Nat} (hd : ∀ d ∈ ds, d < base) :
    (ds.map (digitChar base)).mapM (digitValue base) = some ds := by
  induction ds with
  | nil => rfl
  | cons d ds ih =>
    obtain ⟨h, hds⟩ := List.forall_mem_cons.1 hd
    rw [List.map_cons, List.mapM_cons, digitValue_digitChar h hb', ih hds]
    rfl

theorem readDigits_natChars : readDigits? base (natChars base n) = some n := by
  have hf : (natChars base n).filter (!Text.isBlank ·) = natChars base n := by
    refine List.filter_eq_self.2 fun c hc => ?_
    rw [(isDigit_of_mem_natChars hb hb' n c hc).not_blank]
    rfl
  rw [readDigits?, hf, natChars,
    mapM_digitValue_digitChar hb' (lt_of_mem_digits hb n), Option.map_some,
    ofDigits_digits hb]

theorem natChars_eq_cons : ∃ c cs, natChars base n = c :: cs ∧ IsDigit base c := by
  obtain ⟨d, ds, h⟩ := List.exists_cons_of_ne_nil (digits_ne_nil hb n)
  have hc : natChars base n = digitChar base d :: ds.map (digitChar base) := by
    rw [natChars, h, List.map_cons]
  exact ⟨_, _, hc, isDigit_of_mem_natChars hb hb' n _ (hc ▸ List.mem_cons_self)⟩

theorem readMagnitude_natChars : readMagnitude? base (natChars base n) = some n := by
  have hz : base ≠ 0 := by omega
  have hr := readDigits_natChars hb hb' n
  obtain ⟨c, cs, hc, d, hd⟩ := natChars_eq_cons hb hb' n
  rw [hc] at hr ⊢
  simp only [readMagnitude?, hz, if_false, hd]
  exact hr

end

/-! ## Integers -/

section

variable {base : Nat} (hb : 2 ≤ base) (hb' : base ≤ 62) (n : Int)

include hb hb'

theorem readSigned_chars : readSigned? base (chars base n) = some n := by
  have hm := readMagnitude_natChars hb hb' n.natAbs
  rw [chars]
  -- the sign is taken off before the digits are looked at
  split
  · rename_i hn
    have hd : ('-' :: natChars base n.natAbs).dropWhile Text.isBlank = '-' :: natChars base n.natAbs := rfl
    have hv : -(n.natAbs : Int) = n := by omega
    simp only [readSigned?, hd, hm]
    exact congrArg some hv
  · rename_i hn
    obtain ⟨c, cs, hc, hdigit⟩ := natChars_eq_cons hb hb' n.natAbs
    have hd : (c :: cs).dropWhile Text.isBlank = c :: cs := by
      rw [List.dropWhile_cons, hdigit.not_blank]
      rfl
    rw [hc] at hm ⊢
    rw [readSigned?, hd]
    split
    · rename_i hminus
      exact absurd (List.cons.inj hminus).1 hdigit.ne_minus
    · have hv : (n.natAbs : Int) = n := by omega
      rw [hm]
      exact congrArg some hv

theorem mem_chars : ∀ c ∈ chars base n, c = '-' ∨ IsDigit base c := by
  intro c hc
  have digit := isDigit_of_mem_natChars hb hb' n.natAbs c
  rw [chars] at hc
  split at hc
  · rcases List.mem_cons.1 hc with hc | hc
    exacts [.inl hc, .inr (digit hc)]
  · exact .inr (digit hc)

omit hb' in
/-- A number as characters: a minus or none, and the digits of the magnitude. -/
theorem chars_eq : chars base n = (if n < 0 then ['-'] else []) ++
    (if n = 0 then [0] else (Nat.digits base n.natAbs).reverse).map (digitChar base) := by
  unfold chars natChars
  rw [digits_eq hb]
  simp only [Int.natAbs_eq_zero]
  split
  · rfl
  · rfl

theorem takeWhile_chars : (chars base n).takeWhile (· ≠ '\x00') = chars base n := by
  refine List.takeWhile_eq_self_iff.2 fun c hc => ?_
  rw [decide_eq_true_eq]
  rcases mem_chars hb hb' n c hc with rfl | hd
  · decide
  · exact hd.ne_nul

end

theorem dropHexMark_of_forall {cs : List Char} (h : ∀ c ∈ cs, c ≠ 'x' ∧ c ≠ 'X') :
    dropHexMark cs = cs := by
  unfold dropHexMark
  split
  · rename_i x c rest
    have hx := h x (by simp)
    rw [if_neg (not_or.2 hx)]
  · rfl

theorem dropHexMark_chars (n : Int) : dropHexMark (chars 16 n) = chars 16 n := by
  refine dropHexMark_of_forall fun c hc => ?_
  rcases mem_chars (by decide) (by decide) n c hc with rfl | hd
  · decide
  · exact hd.ne_mark

@[simp] theorem toList_render (base : Nat) (n : Int) : (render base n).toList = chars base n :=
  String.toList_ofList

/-- A text that is a written number once it has no mark in front is read as that number. -/
theorem parse_of_unmarked {base : Nat} (hb : 2 ≤ base) (hb' : base ≤ 62) {n : Int} {s : String}
    (h : (if base = 16 then dropHexMark s.toList else s.toList) = chars base n) :
    parse base s = .ok n := by
  have hr : read? base s = some n := by
    rw [read?, h, if_neg (Nat.not_lt.2 hb'), takeWhile_chars hb hb', readSigned_chars hb hb']
  rw [parse, hr]

/-- A written number is read back. -/
theorem parse_render {base : Nat} (hb : 2 ≤ base) (hb' : base ≤ 62) (n : Int) :
    parse base (render base n) = .ok n := by
  refine parse_of_unmarked hb hb' ?_
  rw [toList_render]
  split
  · rename_i h
    rw [h, dropHexMark_chars]
  · rfl

theorem parse_hex (n : Int) : parse 16 (hex n) = .ok n := parse_render (by decide) (by decide) n

/-- The mark in front of characters. -/
theorem mark_append_ofList (cs : List Char) :
    "0x" ++ String.ofList cs = String.ofList ('0' :: 'x' :: cs) := by
  rw [← String.toList_inj]
  simp

end FlowAutomaton.Numeral
