/-
What an accepted configuration says of the sizes of its registers' contents. The check compares the
length of a magnitude with the width of the register, so the numbers that it lets through are those
of magnitudes below `2 ^ w`, of either sign; and it refuses a register only for a number that is not
one of these. Negative numbers are let through that a word of the width does not hold.
-/
import FlowAutomaton.Proofs.Bits.Length
import FlowAutomaton.Proofs.Soundness

namespace FlowAutomaton

/-- A number of an initializer that does not fit is one that is too wide, unless there are bytes. -/
theorem Initializer.exists_wide {i : Initializer} {width : UInt32} (h : i.Unfit width)
    (hi : ∀ pattern, i.content ≠ .bytes pattern) : ∃ n ∈ i.numbers, width < Bits.length n := by
  have hbytes : ¬i.content.isBytes = true := by
    cases hc : i.content with
    | bytes pattern => exact absurd hc (hi pattern)
    | _ => simp [Content.isBytes]
  have hall := mt (InitialValue.numbers_fit_iff i width hbytes).1 (not_not_intro h)
  simpa using hall

namespace InitialValue

open FlowAutomaton.Configuration (configured holds_configured hasWidths_configured)

variable {ss : List Configuration.Step} {r : Register} {i : Initializer}

theorem checkRegister_of_value {v : Value} (h : value (configured ss) = .ok v)
    (hr : r ∈ (configured ss).registers.registers)
    (hi : (configured ss).contents.find? r.name = some i) : i.checkRegister r = .ok () := by
  have wf := (holds_configured ss).2
  have hv : verdict (configured ss) = .ok () := by
    rw [value_eq wf] at h
    cases hv : verdict (configured ss) with
    | ok u => rfl
    | error e =>
      rw [hv] at h
      cases h
  have hregister := forM_eq_ok_iff.1 (seq_eq_ok_iff.1 hv).1 _ (Table.mem_entries_iff.2 hi)
  rw [registerVerdict] at hregister
  simpa only [RegisterTable.find?_of_mem wf.names_nodup hr] using hregister

theorem unfit_of_refused (h : value (configured ss) = .error (.tooWide r.name))
    (hr : r ∈ (configured ss).registers.registers)
    (hi : (configured ss).contents.find? r.name = some i) :
    i.Unfit r.width ∧ ∀ pattern, i.content ≠ .bytes pattern := by
  have wf := (holds_configured ss).2
  have hblames := (verdict_eq_error_iff wf).1 ((value_eq_error_iff wf).1 h)
  cases hblames with
  | @width name i' hfirst hcontent =>
    obtain ⟨⟨hi', r', hr', hunfit⟩, -⟩ := hfirst
    rw [hi] at hi'
    rw [RegisterTable.find?_of_mem wf.names_nodup hr] at hr'
    cases hi'
    cases hr'
    exact ⟨hunfit, hcontent⟩

theorem length_le_of_checked (h : i.checkRegister r = .ok ()) :
    ∀ n ∈ i.numbers, Bits.length n ≤ r.width := by
  unfold Initializer.checkRegister at h
  split at h
  · cases h
  · split at h
    · rename_i hall
      simpa using hall
    · cases h

/-- Initial contents of a register of a configuration, whatever steps made it. Where there is an
initial value, their numbers have magnitudes of at most as many bits as the register, as far as
lengths are exact, and the register holds each of them but the least negative ones; and where they
are refused as too wide, one of them has a greater magnitude. -/
theorem accepted_magnitudes (ss : List Configuration.Step)
    (hr : r ∈ (configured ss).registers.registers)
    (hi : (configured ss).contents.find? r.name = some i) :
    (∀ v, value (configured ss) = .ok v → ∀ n ∈ i.numbers, Bits.digitCount n < 2 ^ 32 →
      Bits.Within r.width.toNat n ∧
        (Bits.Representable r.width.toNat n ↔ -2 ^ (r.width.toNat - 1) ≤ n)) ∧
      (value (configured ss) = .error (.tooWide r.name) →
        ∃ n ∈ i.numbers, ¬Bits.Within r.width.toNat n) := by
  have hw : r.width ≠ 0 := hasWidths_configured ss r hr
  refine ⟨fun v hv n hn hexact => ?_, fun hrefused => ?_⟩
  · have hlength := length_le_of_checked (checkRegister_of_value hv hr hi) n hn
    have hwithin := Bits.within_of_length_le hw hexact hlength
    have hpos : 0 < r.width.toNat := Nat.pos_of_ne_zero fun hz => hw (UInt32.toNat_inj.1 hz)
    exact ⟨hwithin, (Bits.representable_iff hpos).trans (and_iff_right hwithin)⟩
  · obtain ⟨hunfit, hcontent⟩ := unfit_of_refused hrefused hr hi
    obtain ⟨n, hn, hlt⟩ := i.exists_wide hunfit hcontent
    exact ⟨n, hn, Bits.not_within_of_lt_length hw hlt⟩

/-- A register of eight bits with a value, a mask and two parts of a taint, some of them negative. -/
def signed : List Configuration.Step :=
  [.declare "al" 8, .setRegister "al" ⟨.masked (-200) 255, some (.masked (-128) (-1))⟩]

/-- The same register with a mask of nine bits. -/
def widened : List Configuration.Step :=
  signed ++ [.setRegister "al" ⟨.masked (-200) 256, some (.masked (-128) (-1))⟩]

theorem accepted_magnitudes_signed :
    (∃ v, value (configured signed) = .ok v) ∧
      (∀ n ∈ [-200, 255, -128, -1],
        Bits.Within 8 n ∧ (Bits.Representable 8 n ↔ -2 ^ 7 ≤ n)) ∧
      value (configured widened) = .error (.tooWide "al") ∧
      ∃ n ∈ [-200, 256, -128, -1], ¬Bits.Within 8 n := by
  have haccepted : ∃ v, value (configured signed) = .ok v := ⟨_, rfl⟩
  have hrefused : value (configured widened) = .error (.tooWide "al") := rfl
  obtain ⟨v, hv⟩ := haccepted
  refine ⟨⟨v, hv⟩, fun n hn => ?_, hrefused, ?_⟩
  · have hexact : ∀ n ∈ [-200, 255, -128, -1], Bits.digitCount n < 2 ^ 32 := by decide
    have hbounds := (accepted_magnitudes signed (r := ⟨"al", 8, false⟩) (.head _) rfl).1 v hv
    exact hbounds n hn (hexact n hn)
  · exact (accepted_magnitudes widened (r := ⟨"al", 8, false⟩) (.head _) rfl).2 hrefused

/-- A negative number in a register of eight bits. -/
def narrowed : List Configuration.Step := [.declare "al" 8, .setRegister "al" ⟨.exact (-200), none⟩]

/-- A number is let through that is too small for its register in two's complement. -/
theorem below_least_accepted :
    (∃ v, value (configured narrowed) = .ok v) ∧
      ⟨"al", 8, false⟩ ∈ (configured narrowed).registers.registers ∧
      (configured narrowed).contents.find? "al" = some ⟨.exact (-200), none⟩ ∧
      ¬∀ n ∈ Initializer.numbers ⟨.exact (-200), none⟩, Bits.Representable 8 n := by
  refine ⟨⟨_, rfl⟩, .head _, rfl, fun h => ?_⟩
  exact absurd (h (-200) (.head _)) (by decide)

end InitialValue

end FlowAutomaton
