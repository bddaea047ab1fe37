/-
Addresses as text. What is written of an address is a letter for the stack or the heap, a mark, and the
offset in base 16, filled up with zeros to a width that the size gives (`WrittenAs`). Reading the letter
and the number gives the place back (`readPlace_text`), whatever the width: zeros in front do not count.
So the text tells places apart, and of one place it tells how far it was filled up.
-/
import FlowAutomaton.Proofs.Numeral.Grammar
import FlowAutomaton.Proofs.Place
import FlowAutomaton.Proofs.Soundness
import Mathlib.Data.Nat.Digits.Lemmas

namespace FlowAutomaton

/-! ## Digits with zeros in front -/

namespace Numeral

variable {base : Nat} {ds : List Nat}

theorem ofDigits_replicate_append (base k : Nat) (ds : List Nat) :
    ofDigits base (List.replicate k 0 ++ ds) = ofDigits base ds := by
  induction k with
  | zero => rfl
  | succ k ih =>
    rw [List.replicate_succ, List.cons_append, ofDigits, List.foldl_cons, Nat.zero_mul, Nat.zero_add]
    exact ih

theorem digits_map_digitChar (hb : base ≤ 62) (h : ∀ d ∈ ds, d < base) :
    Digits base (ds.map (digitChar base)) ds := by
  induction ds with
  | nil => exact .nil
  | cons d ds ih =>
    obtain ⟨hd, hds⟩ := List.forall_mem_cons.1 h
    exact .digit (digitValue_eq_some_iff.1 (digitValue_digitChar hd hb)) (ih hds)

/-- The characters of some digits are a magnitude of their value. -/
theorem magnitude_map_digitChar (hb : base ≤ 62) (hne : ds ≠ []) (h : ∀ d ∈ ds, d < base) :
    Magnitude base (ds.map (digitChar base)) (ofDigits base ds) := by
  obtain ⟨d, ds, rfl⟩ := List.exists_cons_of_ne_nil hne
  obtain ⟨hd, hds⟩ := List.forall_mem_cons.1 h
  rw [ofDigits_eq_positional]
  exact .mk (digitValue_eq_some_iff.1 (digitValue_digitChar hd hb)) (digits_map_digitChar hb hds)

theorem isDigit_of_mem_map_digitChar (hb : base ≤ 62) (h : ∀ d ∈ ds, d < base) :
    ∀ c ∈ ds.map (digitChar base), IsDigit base c := by
  intro c hc
  obtain ⟨d, hd, rfl⟩ := List.mem_map.1 hc
  exact ⟨d, digitValue_digitChar (h d hd) hb⟩

theorem parse_of_magnitude {cs seen : List Char} {m : Nat} (hs : significant 16 cs = seen)
    (h : Magnitude 16 seen m) : parse 16 (String.ofList cs) = .ok (m : Int) := by
  have hd : Denotes 16 seen m := .plain (fun _ hb => absurd hb List.not_mem_nil) h
  have hr : read? 16 (String.ofList cs) = some (m : Int) := by
    rw [read?_ofList, if_neg (by decide), hs]
    exact (readSigned?_eq_some_iff (by decide)).2 hd
  rw [parse, hr]

section

variable {cs : List Char} (hcs : ∀ c ∈ cs, IsDigit 16 c)

include hcs

theorem takeWhile_of_digits : cs.takeWhile (· ≠ '\x00') = cs :=
  List.takeWhile_eq_self_iff.2 fun c hc => decide_eq_true (hcs c hc).ne_nul

/-- Digits of base 16 are looked at as they are, -/
theorem significant_of_digits : significant 16 cs = cs := by
  have hx : ∀ c ∈ cs, c ≠ 'x' ∧ c ≠ 'X' := fun c hc => (hcs c hc).ne_mark
  rw [significant, ← dropHexMark_eq, dropHexMark_of_forall hx, takeWhile_of_digits hcs]

/-- also behind a mark. -/
theorem significant_of_marked_digits (hne : cs ≠ []) : significant 16 ('0' :: 'x' :: cs) = cs := by
  have hmarked : Marked ('0' :: 'x' :: cs) := marked_iff.2 ⟨'x', cs, .inl rfl, hne, rfl⟩
  rw [significant, unmarked, if_pos ⟨rfl, hmarked⟩]
  exact takeWhile_of_digits hcs

end

/-- Only zero begins with the digit zero. -/
theorem head?_digits_eq_zero_iff (hb : 2 ≤ base) (n : Nat) :
    (digits base n).head? = some 0 ↔ n = 0 := by
  rw [digits_eq hb]
  split
  · rename_i hn
    simp [hn]
  · rename_i hn
    have hne : Nat.digits base n ≠ [] := Nat.digits_ne_nil_iff_ne_zero.2 hn
    rw [List.head?_reverse, List.getLast?_eq_some_getLast hne, Option.some.injEq]
    exact iff_of_false (Nat.getLast_digit_ne_zero base hn) hn

end Numeral

/-! ## Addresses -/

namespace Address

open Numeral

/-- An address that was made in one of the three regions. -/
def Made (a : Address) : Prop :=
  ∃ region ∈ [Region.global, .stack, .heap], ∃ offset size, make region offset size = .ok a

/-- An address is written as a letter or none for its region, a mark, and some digits: lower case ones
of its offset in base 16, at least as many as the size of the address asks for, and with zeros in
front only up to there. -/
structure WrittenAs (a : Address) (letter : String) (ds : List Char) : Prop where
  text : a.text = letter ++ "0x" ++ String.ofList ds
  letter : a.region = .global ∧ letter = "" ∨ a.region = .stack ∧ letter = "S" ∨
    a.region = .heap ∧ letter = "H"
  least : max 1 (a.size.toNat / 4) ≤ ds.length
  lower : ∀ c ∈ ds, '0' ≤ c ∧ c ≤ '9' ∨ 'a' ≤ c ∧ c ≤ 'f'
  zeros : ds.head? = some '0' → ds.length = max 1 (a.size.toNat / 4)
  value : parse 16 (String.ofList ds) = .ok a.offset
  marked : parse 16 ("0x" ++ String.ofList ds) = .ok a.offset

/-- The region that a text names by its first letter, and the number in base 16 that is the rest. -/
def readPlace (s : String) : Except Fault (Region × Int) :=
  match s.toList with
  | 'S' :: cs => (parse 16 (String.ofList cs)).map (Region.stack, ·)
  | 'H' :: cs => (parse 16 (String.ofList cs)).map (Region.heap, ·)
  | cs => (parse 16 (String.ofList cs)).map (Region.global, ·)

/-- The digits of an address, from the most significant one, with the zeros that fill them up. -/
def values (a : Address) : List Nat := List.replicate a.zeros 0 ++ digits 16 a.offset.natAbs

theorem Made.sound {a : Address} (h : a.Made) : a.Sound := by
  obtain ⟨region, hr, offset, size, h⟩ := h
  exact sound_of_make hr h

variable {a b : Address}

theorem values_lt (a : Address) : ∀ d ∈ a.values, d < 16 :=
  List.forall_mem_append.2
    ⟨fun d hd => by rw [List.eq_of_mem_replicate hd]; decide, lt_of_mem_digits (by decide) _⟩

theorem values_ne_nil (a : Address) : a.values ≠ [] :=
  List.append_ne_nil_of_right_ne_nil _ (digits_ne_nil (by decide) _)

theorem lower_digitChar : ∀ d < 16, '0' ≤ digitChar 16 d ∧ digitChar 16 d ≤ '9' ∨
    'a' ≤ digitChar 16 d ∧ digitChar 16 d ≤ 'f' := by
  decide

theorem digitChar_eq_zero : ∀ d < 16, digitChar 16 d = '0' → d = 0 := by
  decide

theorem head?_values_of_zero (hzero : (a.values.map (digitChar 16)).head? = some '0') :
    a.values.head? = some 0 := by
  obtain ⟨d, ds, hd⟩ := List.exists_cons_of_ne_nil a.values_ne_nil
  have hlt : d < 16 := a.values_lt d (hd ▸ List.mem_cons_self)
  rw [hd, List.map_cons, List.head?_cons, Option.some.injEq] at hzero
  rw [hd, digitChar_eq_zero d hlt hzero, List.head?_cons]

section

variable (h : a.Sound)

include h

theorem chars_offset : chars 16 a.offset = (digits 16 a.offset.natAbs).map (digitChar 16) := by
  rw [chars, if_neg (Int.not_lt.2 h.offset_nonneg), natChars]

theorem text_eq_values :
    a.text = a.region.mark ++ "0x" ++ String.ofList (a.values.map (digitChar 16)) := by
  have hfill : List.replicate a.zeros '0' = (List.replicate a.zeros 0).map (digitChar 16) := by
    rw [List.map_replicate]
    rfl
  rw [values, List.map_append, ← chars_offset h, ← hfill]
  rfl

theorem length_values : a.values.length = max (a.size.toNat / 4) (digits 16 a.offset.natAbs).length := by
  have hlength := congrArg List.length (chars_offset h)
  rw [List.length_map] at hlength
  rw [values, List.length_append, List.length_replicate, zeros, hlength]
  omega

/-- Zeros stand in front only where the width asks for them. -/
theorem length_values_of_zero (hzero : a.values.head? = some 0) :
    a.values.length = max 1 (a.size.toNat / 4) := by
  have hlength := length_values h
  have hpos : 0 < (digits 16 a.offset.natAbs).length :=
    List.length_pos_iff.2 (digits_ne_nil (by decide) _)
  have hvalues : a.values = List.replicate a.zeros 0 ++ digits 16 a.offset.natAbs := rfl
  cases hfill : a.zeros with
  | zero =>
    rw [hfill, List.replicate_zero, List.nil_append] at hvalues
    rw [hvalues] at hzero hlength ⊢
    -- nothing was filled up, so the first digit is that of the offset, which is zero
    have hoffset := (head?_digits_eq_zero_iff (by decide) _).1 hzero
    rw [hoffset] at hlength ⊢
    change 1 = max 1 _
    change 1 = max _ 1 at hlength
    omega
  | succ k =>
    rw [hvalues, List.length_append, List.length_replicate, hfill] at hlength ⊢
    omega

theorem ofDigits_values : ((ofDigits 16 a.values : Nat) : Int) = a.offset := by
  rw [values, ofDigits_replicate_append, ofDigits_digits (by decide)]
  exact Int.natAbs_of_nonneg h.offset_nonneg

theorem parse_values :
    parse 16 (String.ofList (a.values.map (digitChar 16))) = .ok a.offset ∧
      parse 16 (String.ofList ('0' :: 'x' :: a.values.map (digitChar 16))) = .ok a.offset := by
  have hdigit := isDigit_of_mem_map_digitChar (by decide) a.values_lt
  have hm := magnitude_map_digitChar (by decide) a.values_ne_nil a.values_lt
  rw [← ofDigits_values h]
  constructor
  · exact parse_of_magnitude (significant_of_digits hdigit) hm
  · refine parse_of_magnitude (significant_of_marked_digits hdigit ?_) hm
    exact mt List.map_eq_nil_iff.1 a.values_ne_nil

/-! ## What is written -/

theorem writtenAs : ∃ letter ds, a.WrittenAs letter ds := by
  obtain ⟨hplain, hmarked⟩ := parse_values h
  have hregion := h.region_known
  refine ⟨a.region.mark, a.values.map (digitChar 16), text_eq_values h, ?_, ?_, ?_, ?_, hplain, ?_⟩
  · simp only [List.mem_cons, List.not_mem_nil, or_false] at hregion
    rcases hregion with hr | hr | hr
    · exact .inl ⟨hr, by rw [hr]; rfl⟩
    · exact .inr (.inl ⟨hr, by rw [hr]; rfl⟩)
    · exact .inr (.inr ⟨hr, by rw [hr]; rfl⟩)
  · have hpos := List.length_pos_iff.2 a.values_ne_nil
    have hlength := length_values h
    rw [List.length_map]
    omega
  · intro c hc
    obtain ⟨d, hd, rfl⟩ := List.mem_map.1 hc
    exact lower_digitChar d (a.values_lt d hd)
  · intro hzero
    rw [List.length_map]
    exact length_values_of_zero h (head?_values_of_zero hzero)
  · rw [mark_append_ofList, hmarked]

end

/-! ## Reading -/

/-- The place of an address is read from its text. -/
theorem WrittenAs.readPlace_text {letter : String} {ds : List Char} (h : a.WrittenAs letter ds) :
    readPlace a.text = .ok (a.region, a.offset) := by
  have hmarked := h.marked
  rw [mark_append_ofList] at hmarked
  have htext : a.text.toList = letter.toList ++ '0' :: 'x' :: ds := by
    rw [h.text, String.append_assoc, mark_append_ofList]
    simp
  unfold readPlace
  rw [htext]
  rcases h.letter with ⟨hr, rfl⟩ | ⟨hr, rfl⟩ | ⟨hr, rfl⟩
  · change (parse 16 (String.ofList ('0' :: 'x' :: ds))).map (Region.global, ·) = _
    rw [hmarked, hr]
    rfl
  · change (parse 16 (String.ofList ('0' :: 'x' :: ds))).map (Region.stack, ·) = _
    rw [hmarked, hr]
    rfl
  · change (parse 16 (String.ofList ('0' :: 'x' :: ds))).map (Region.heap, ·) = _
    rw [hmarked, hr]
    rfl

theorem Made.readPlace_text (h : a.Made) : readPlace a.text = .ok (a.region, a.offset) := by
  obtain ⟨letter, ds, hw⟩ := writtenAs h.sound
  exact hw.readPlace_text

theorem Made.samePlace_of_text (ha : a.Made) (hb : b.Made) (h : a.text = b.text) : a.SamePlace b := by
  have hread : (Except.ok (a.region, a.offset) : Except Fault (Region × Int)) =
      .ok (b.region, b.offset) := by
    rw [← ha.readPlace_text, ← hb.readPlace_text, h]
  rw [Except.ok.injEq, Prod.mk.injEq] at hread
  exact ⟨hread.1, hread.2⟩

/-- The text of an address tells its place. It is a letter or none, a mark and digits, from which the
region and the offset are read back, whatever the size of the address. Two addresses with the same text
are equal, and equal addresses have the same text if they are of the same size, or more exactly if they
are filled up with as many zeros. -/
theorem text_tells_place (ha : a.Made) (hb : b.Made) :
    (∃ letter ds, a.WrittenAs letter ds) ∧ readPlace a.text = .ok (a.region, a.offset) ∧
      (a.text = b.text → a.same b = true) ∧
      (a.same b = true → a.size = b.size → a.text = b.text) ∧
      (a.text = b.text ↔ a.same b = true ∧ a.zeros = b.zeros) := by
  have hsame (h : a.text = b.text) : a.SamePlace b := ha.samePlace_of_text hb h
  refine ⟨writtenAs ha.sound, ha.readPlace_text, fun h => same_iff.2 (hsame h), fun h hsize => ?_, ?_⟩
  · rw [(same_iff.1 h).eq_iff.2 hsize]
  · rw [same_iff]
    constructor
    · intro h
      exact ⟨hsame h, (hsame h).text_eq_iff.1 h⟩
    · rintro ⟨h, hzeros⟩
      exact h.text_eq_iff.2 hzeros

/-- An address on the heap with two zeros in front, -/
def filled : Address := ⟨.heap, 0xab, 18⟩

/-- and the same place by an address of a smaller size. -/
def refilled : Address := ⟨.heap, 0xab, 16⟩

theorem text_tells_place_refilled :
    filled.Made ∧ refilled.Made ∧ filled.text = "H0x00ab" ∧ refilled.text = "H0x00ab" ∧
      readPlace filled.text = .ok (.heap, 0xab) ∧ filled.same refilled = true ∧
      filled.zeros = refilled.zeros := by
  have ha : filled.Made := ⟨.heap, by decide, 0xab, 18, rfl⟩
  have hb : refilled.Made := ⟨.heap, by decide, 0xab, 16, rfl⟩
  have hta : filled.text = "H0x00ab" := by decide
  have htb : refilled.text = "H0x00ab" := by decide
  obtain ⟨-, hplace, -, -, hiff⟩ := text_tells_place ha hb
  obtain ⟨hsame, hzeros⟩ := hiff.1 (hta.trans htb.symm)
  exact ⟨ha, hb, hta, htb, hplace, hsame, hzeros⟩

end Address

end FlowAutomaton
