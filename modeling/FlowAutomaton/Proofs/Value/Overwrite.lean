/-
Memory that is written again. The cell of the earlier write is gone, but not all that is shown of it:
the location stays as it was written first, and its address is printed and stored with it
(`setMemory_eq_forget`). The size of that address is the one thing that can tell.
-/
import FlowAutomaton.Proofs.Checkpoint.Lawful
import FlowAutomaton.Proofs.Value.Update

namespace FlowAutomaton.Value

open Checkpoint (write write_inj)

/-- A value without a stretch of memory. -/
def forget (v : Value) (place : Location) : Value := { v with memory := v.memory.without place }

variable {v : Value} {place place' k : Location} {i j : Initializer}

/-! ## One write -/

/-- To write memory is to write it at the location that is kept, into a value without it. -/
theorem setMemory_eq_forget (v : Value) (place : Location) (i : Initializer) :
    v.setMemory place i = (v.forget place).setMemory (v.memory.keptKey place) i := by
  have hcount := (Location.compare_eq_iff.1 (v.memory.compare_keptKey place)).count
  rw [setMemory, setMemory, forget, v.memory.insert_eq_without, hcount]

theorem forget_congr (h : place'.Same place) : v.forget place' = v.forget place := by
  rw [forget, forget, Table.without_congr (Location.compare_eq_iff.2 h)]

/-- Memory that is written again is written once, at the location of the first write. -/
theorem setMemory_setMemory (h : place'.Same place) :
    (v.setMemory place i).setMemory place' j = v.setMemory place j := by
  rw [setMemory, setMemory, setMemory, Table.insert_insert_of_eq (Location.compare_eq_iff.2 h),
    h.count]

/-! ## What is shown of a location -/

theorem lines_setMemory_forget (h : k.Same place) :
    ((v.forget place).setMemory k i).lines =
      v.registers.entries.map registerLine ++ ((v.memory.before place).map memoryLine ++
        memoryLine (k, ⟨k.count, i.content, i.taint⟩) :: (v.memory.after place).map memoryLine) := by
  rw [lines, setMemory, forget, Table.entries_insert_without (Location.compare_eq_iff.2 h),
    List.map_append, List.map_cons]

theorem memoryLine_eq_iff {cell : MemoryCell} :
    memoryLine (k, cell) = memoryLine (place, cell) ↔ k.address.text = place.address.text := by
  simp [memoryLine]

/-- The lines tell locations apart by the text of their addresses. -/
theorem lines_eq_iff (hk : k.Same place) (hp : place'.Same place) :
    ((v.forget place).setMemory k i).lines = ((v.forget place).setMemory place' i).lines ↔
      k.address.zeros = place'.address.zeros := by
  have hsame : k.Same place' := ⟨hk.place.trans hp.place.symm, hk.count.trans hp.count.symm⟩
  rw [lines_setMemory_forget hk, lines_setMemory_forget hp, List.append_cancel_left_eq,
    List.append_cancel_left_eq, List.cons.injEq, and_iff_left rfl, hsame.count,
    memoryLine_eq_iff, hsame.place.text_eq_iff]

/-- The stored forms tell locations apart by the sizes of their addresses. -/
theorem write_eq_iff (hk : k.Same place) (hp : place'.Same place) :
    write ((v.forget place).setMemory k i) = write ((v.forget place).setMemory place' i) ↔
      k.address.size = place'.address.size := by
  have hsame : k.Same place' := ⟨hk.place.trans hp.place.symm, hk.count.trans hp.count.symm⟩
  rw [write_inj, ← hsame.place.eq_iff]
  constructor
  · intro he
    have hentries := congrArg (fun x : Value => x.memory.entries) he
    simp only [setMemory, forget,
      Table.entries_insert_without (Location.compare_eq_iff.2 hk),
      Table.entries_insert_without (Location.compare_eq_iff.2 hp), List.append_cancel_left_eq,
      List.cons.injEq, Prod.mk.injEq] at hentries
    exact congrArg Location.address hentries.1.1
  · intro he
    have hkp : k = place' := by
      obtain ⟨a, n⟩ := k
      obtain ⟨a', n'⟩ := place'
      cases he
      cases hsame.count
      rfl
    rw [hkp]

/-! ## Two writes -/

theorem after_setMemory {warnings : Bool} {region : Region} {w : Write}
    (h : (Update.setMemory warnings place region i).write v = .ok w) :
    v.after (.setMemory warnings place region i) = v.setMemory place i := by
  rw [after_of_ok h, write_setMemory h]
  rfl

/-- Memory that is written twice, at one place by addresses of any sizes, is as if the second write was
alone except that the location that is kept is an earlier one: that under which the memory was there
before, or that of the first write. The lines show it unless its address is filled up with as many
zeros, and the stored form shows it unless its address is of the same size. -/
theorem overwrite_keeps_location (v : Value) {a b : Address} (h : a.SamePlace b) (n : UInt32)
    {i j : Initializer} {ri rj : Region} {wi wj : Bool}
    (hs : v.accepted [.setMemory wi ⟨a, n⟩ ri i, .setMemory wj ⟨b, n⟩ rj j] =
      [.setMemory wi ⟨a, n⟩ ri i, .setMemory wj ⟨b, n⟩ rj j]) :
    let twice := v.afterAll [.setMemory wi ⟨a, n⟩ ri i, .setMemory wj ⟨b, n⟩ rj j]
    let once := (v.forget ⟨b, n⟩).after (.setMemory wj ⟨b, n⟩ rj j)
    let kept := v.memory.keptKey ⟨a, n⟩
    (v.forget ⟨b, n⟩).accepted [.setMemory wj ⟨b, n⟩ rj j] = [.setMemory wj ⟨b, n⟩ rj j] ∧
      twice = (v.forget ⟨b, n⟩).setMemory kept j ∧ once = (v.forget ⟨b, n⟩).setMemory ⟨b, n⟩ j ∧
      kept.Same ⟨b, n⟩ ∧
      (v.memory? ⟨b, n⟩ = none → kept = ⟨a, n⟩ ∧ v.forget ⟨b, n⟩ = v) ∧
      (twice.lines = once.lines ↔ kept.address.zeros = b.zeros) ∧
      (write twice = write once ↔ kept.address.size = b.size) := by
  intro twice once kept
  obtain ⟨x, hx, hrest⟩ := accepted_cons_eq_self_iff.1 hs
  obtain ⟨y, hy, -⟩ := accepted_cons_eq_self_iff.1 hrest
  -- whether memory is written does not depend on the value
  have hy' : (Update.setMemory wj ⟨b, n⟩ rj j).write (v.forget ⟨b, n⟩) = .ok y := hy
  have hab : Location.Same ⟨a, n⟩ ⟨b, n⟩ := ⟨h, rfl⟩
  have hka : kept.Same ⟨a, n⟩ :=
    (Location.compare_eq_iff.1 (v.memory.compare_keptKey ⟨a, n⟩)).symm
  have hkept : kept.Same ⟨b, n⟩ := ⟨hka.place.trans h, hka.count⟩
  have htwice : twice = (v.forget ⟨b, n⟩).setMemory kept j := by
    calc twice = (v.put x).after (.setMemory wj ⟨b, n⟩ rj j) := by
          rw [← after_of_ok hx]
          rfl
      _ = (v.setMemory ⟨a, n⟩ i).setMemory ⟨b, n⟩ j := by
          rw [after_setMemory hy, write_setMemory hx]
          rfl
      _ = v.setMemory ⟨a, n⟩ j := setMemory_setMemory hab.symm
      _ = (v.forget ⟨b, n⟩).setMemory kept j := by
          rw [setMemory_eq_forget, forget_congr hab]
  have honce : once = (v.forget ⟨b, n⟩).setMemory ⟨b, n⟩ j := after_setMemory hy'
  refine ⟨accepted_cons_eq_self_iff.2 ⟨y, hy', rfl⟩, htwice, honce, hkept, fun hnone => ?_, ?_, ?_⟩
  · refine ⟨Table.keptKey_of_absent fun e he => ?_, by rw [forget, Table.without_of_absent hnone]⟩
    rw [Std.TransCmp.congr_left (Location.compare_eq_iff.2 hab)]
    exact Table.find?_eq_none_iff.1 hnone e he
  · rw [htwice, honce]
    exact lines_eq_iff hkept ⟨.refl b, rfl⟩
  · rw [htwice, honce]
    exact write_eq_iff hkept ⟨.refl b, rfl⟩

/-- A place by an address of 32 bits. -/
def narrow : Address := ⟨.global, 0x1000, 32⟩

/-- The same place by an address of 64 bits. -/
def wide : Address := ⟨.global, 0x1000, 64⟩

/-- Writes of four copies there, by the one address and then by the other. -/
def writtenTwice : List Update :=
  [.setMemory true ⟨narrow, 4⟩ .global ⟨.exact 0xab, none⟩,
    .setMemory true ⟨wide, 4⟩ .global ⟨.exact 0xef, none⟩]

theorem overwrite_keeps_location_wide :
    let twice := afterAll {} writtenTwice
    let once := (forget {} ⟨wide, 4⟩).after (.setMemory true ⟨wide, 4⟩ .global ⟨.exact 0xef, none⟩)
    let kept := ({} : Value).memory.keptKey ⟨narrow, 4⟩
    narrow.SamePlace wide ∧ accepted {} writtenTwice = writtenTwice ∧ kept = ⟨narrow, 4⟩ ∧
      (twice.lines = once.lines ↔ kept.address.zeros = wide.zeros) ∧
      (write twice = write once ↔ kept.address.size = wide.size) := by
  intro twice once kept
  have hplace : narrow.SamePlace wide := by decide
  have hs : accepted {} writtenTwice = writtenTwice := rfl
  obtain ⟨-, -, -, -, hkept, hlines, hwrite⟩ := overwrite_keeps_location {} hplace 4 hs
  exact ⟨hplace, hs, (hkept rfl).1, hlines, hwrite⟩

/-- The size of the first address is shown after the place was written again. -/
theorem narrow_shows_after_overwrite :
    let once := after {} (.setMemory true ⟨wide, 4⟩ .global ⟨.exact 0xef, none⟩)
    narrow.same wide = true ∧ accepted {} writtenTwice = writtenTwice ∧
      (afterAll {} writtenTwice).lines = ["mem [0x00001000, 4] = 0xef"] ∧
      once.lines = ["mem [0x0000000000001000, 4] = 0xef"] ∧
      write (afterAll {} writtenTwice) ≠ write once := by
  refine ⟨by decide, rfl, ?_, ?_, ?_⟩
  · decide +kernel
  · decide +kernel
  · decide +kernel

end FlowAutomaton.Value
