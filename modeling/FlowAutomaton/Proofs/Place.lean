/-
Places. An address names a place by its region and its offset; its size is only a matter of how the
address is written. A location is a place with a count. Tables tell addresses and locations apart by
their order alone, and that order tells apart different places and nothing else: regions come
first, then offsets, then counts.
-/
import FlowAutomaton.Value

namespace FlowAutomaton

theorem Region.code_injective {r r' : Region} (h : r.code = r'.code) : r = r' := by
  rw [← ofCode_code r, h, ofCode_code]

/-! ## Addresses -/

namespace Address

/-- Two addresses name the same place. -/
structure SamePlace (a b : Address) : Prop where
  region : a.region = b.region
  offset : a.offset = b.offset

variable {a b c : Address}

instance : Decidable (a.SamePlace b) :=
  decidable_of_iff (a.region = b.region ∧ a.offset = b.offset)
    ⟨fun h => ⟨h.1, h.2⟩, fun h => ⟨h.region, h.offset⟩⟩

theorem SamePlace.refl (a : Address) : a.SamePlace a := ⟨rfl, rfl⟩

theorem SamePlace.symm (h : a.SamePlace b) : b.SamePlace a := ⟨h.region.symm, h.offset.symm⟩

theorem SamePlace.trans (h : a.SamePlace b) (h' : b.SamePlace c) : a.SamePlace c :=
  ⟨h.region.trans h'.region, h.offset.trans h'.offset⟩

theorem compare_eq_iff : compare a b = .eq ↔ a.SamePlace b := by
  refine compareLex_eq_eq.trans ?_
  simp only [compareOn, Std.compare_eq_iff_eq]
  constructor
  · rintro ⟨hr, ho⟩
    exact ⟨Region.code_injective hr, ho⟩
  · rintro ⟨hr, ho⟩
    exact ⟨congrArg Region.code hr, ho⟩

/-- Addresses are taken for the same exactly if they name one place. -/
theorem same_iff : a.same b = true ↔ a.SamePlace b := by
  rw [same, beq_iff_eq, compare_eq_iff]

/-- Addresses of one place differ in their sizes only. -/
theorem SamePlace.eq_iff (h : a.SamePlace b) : a = b ↔ a.size = b.size := by
  obtain ⟨region, offset, size⟩ := a
  obtain ⟨region', offset', size'⟩ := b
  obtain ⟨hr, ho⟩ := h
  rw [mk.injEq]
  exact ⟨fun he => he.2.2, fun he => ⟨hr, ho, he⟩⟩

/-- The number of zeros that fill up the digits of an address. -/
def zeros (a : Address) : Nat := a.size.toNat / 4 - (Numeral.chars 16 a.offset).length

/-- Addresses of one place are written alike where they are filled up alike. -/
theorem SamePlace.text_eq_iff (h : a.SamePlace b) : a.text = b.text ↔ a.zeros = b.zeros := by
  rw [text, text, zeros, zeros, h.region, h.offset, String.append_right_inj, String.ofList_inj,
    List.append_left_inj, List.replicate_inj, and_iff_left (.inr rfl)]

end Address

/-! ## Locations -/

namespace Location

/-- Two locations are the same stretch of memory. -/
structure Same (l k : Location) : Prop where
  place : l.address.SamePlace k.address
  count : l.count = k.count

/-- A location comes before another one: by region, then by offset, then by count. -/
def Before (l k : Location) : Prop :=
  l.address.region.code < k.address.region.code ∨
    l.address.region = k.address.region ∧
      (l.address.offset < k.address.offset ∨
        l.address.offset = k.address.offset ∧ l.count < k.count)

variable {l k : Location}

instance : Decidable (l.Same k) :=
  decidable_of_iff (l.address.SamePlace k.address ∧ l.count = k.count)
    ⟨fun h => ⟨h.1, h.2⟩, fun h => ⟨h.place, h.count⟩⟩

theorem Same.symm (h : l.Same k) : k.Same l := ⟨h.place.symm, h.count.symm⟩

theorem compare_eq_iff : compare l k = .eq ↔ l.Same k := by
  refine compareLex_eq_eq.trans ?_
  simp only [compareOn, Address.compare_eq_iff, Std.compare_eq_iff_eq]
  exact ⟨fun h => ⟨h.1, h.2⟩, fun h => ⟨h.place, h.count⟩⟩

/-- Locations are sorted by place and then by count. -/
theorem compare_eq_lt_iff : compare l k = .lt ↔ l.Before k := by
  change ((compare l.address.region.code k.address.region.code).then
    (compare l.address.offset k.address.offset)).then (compare l.count k.count) = .lt ↔ _
  rw [Ordering.then_eq_lt, Ordering.then_eq_lt, Ordering.then_eq_eq]
  simp only [Std.compare_eq_iff_eq, Std.compare_eq_lt, Before]
  constructor
  · rintro ((hr | ⟨hr, ho⟩) | ⟨⟨hr, ho⟩, hc⟩)
    · exact .inl hr
    · exact .inr ⟨Region.code_injective hr, .inl ho⟩
    · exact .inr ⟨Region.code_injective hr, .inr ⟨ho, hc⟩⟩
  · rintro (hr | ⟨hr, ho | ⟨ho, hc⟩⟩)
    · exact .inl (.inl hr)
    · exact .inl (.inr ⟨congrArg Region.code hr, ho⟩)
    · exact .inr ⟨⟨congrArg Region.code hr, ho⟩, hc⟩

end Location

end FlowAutomaton
