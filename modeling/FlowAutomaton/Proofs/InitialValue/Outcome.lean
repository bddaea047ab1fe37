/-
The initial value of a configuration in closed form. Whether there is one is settled by a check of
each initial content by itself (`verdict`); what it is, by the last cell that is written to each
register and each location (`written`). No check looks at what has been written, because every
register has a cell from the beginning.
-/
import FlowAutomaton.Proofs.Configuration.History
import FlowAutomaton.Proofs.Place

namespace FlowAutomaton

/-- Addresses and counts of two locations are told apart as extents are, after their regions. -/
theorem compare_location (a b : Location) :
    compare a b = (compare a.address.region.code b.address.region.code).then
      (compare (⟨a.address.offset, a.count⟩ : Extent) ⟨b.address.offset, b.count⟩) :=
  Ordering.then_assoc _ _ _

namespace InitialValue

open FlowAutomaton.Action

/-! ## Checks -/

/-- Whether the initial content of a register can be written. -/
def registerVerdict (t : RegisterTable) (e : String × Initializer) : Except Fault Unit :=
  match t.find? e.1 with
  | some r => e.2.checkRegister r
  | none => .error (.undeclaredRegister e.1)

/-- Whether the initial content of an extent can be written. -/
def offsetVerdict (e : Extent × Initializer) : Except Fault Unit :=
  if e.1.offset < 0 then .error (.negativeOffset e.1.offset) else .ok ()

/-- Whether a configuration has an initial value. -/
def verdict (c : Configuration) : Except Fault Unit := do
  c.contents.entries.forM (registerVerdict c.registers)
  c.globalMemory.entries.forM offsetVerdict
  c.stackMemory.entries.forM offsetVerdict
  c.heapMemory.entries.forM offsetVerdict

/-! ## Cells -/

/-- The cell of a register with the initializer that it was given, if it was given one. -/
def cell (r : Register) : Option Initializer → RegisterCell
  | none => { width := r.width }
  | some i => ⟨r.width, if r.isStackPointer then .stack else .global, some i.content, i.taint⟩

/-- The location of an extent of a region and the cell there. -/
def located (region : Region) (size : UInt32) (e : Extent × Initializer) : Location × MemoryCell :=
  (⟨⟨region, e.1.offset, size⟩, e.1.count⟩, ⟨e.1.count, e.2.content, e.2.taint⟩)

/-- With the initial content of a register written. -/
def putRegister (t : RegisterTable) (v : Value) (e : String × Initializer) : Value :=
  match t.find? e.1 with
  | some r => { v with registers := v.registers.insert e.1 (cell r (some e.2)) }
  | none => v

/-- With the initial content of an extent of a region written. -/
def putMemory (region : Region) (size : UInt32) (v : Value) (e : Extent × Initializer) : Value :=
  { v with memory := v.memory.insert (located region size e).1 (located region size e).2 }

/-- The value with all initial contents written. -/
def written (c : Configuration) : Value :=
  let v := c.contents.entries.foldl (putRegister c.registers) (declared c.registers)
  let v := c.globalMemory.entries.foldl (putMemory .global c.addressSize) v
  let v := c.stackMemory.entries.foldl (putMemory .stack c.addressSize) v
  c.heapMemory.entries.foldl (putMemory .heap c.addressSize) v

/-! ## Declared registers -/

theorem find?_foldl_addRegister {l : List Register} (h : (l.map Register.name).Nodup) (v : Value)
    (name : String) :
    (l.foldl Value.addRegister v).registers.find? name =
      ((RegisterTable.find? ⟨l⟩ name).map fun r => cell r none).or (v.registers.find? name) := by
  induction l generalizing v with
  | nil => rfl
  | cons r l ih =>
    obtain ⟨hr, hl⟩ := List.nodup_cons.1 h
    rw [List.foldl_cons, ih hl, Value.addRegister]
    unfold RegisterTable.find?
    rw [List.find?_cons, Table.find?_insert]
    by_cases hn : name = r.name
    · -- the name comes once only, so no later register takes the place of this one
      have hnone : l.find? (·.name == name) = none := by
        rw [List.find?_eq_none]
        intro r' hr' he
        exact hr (List.mem_map.2 ⟨r', hr', (beq_iff_eq.1 he).trans hn⟩)
      rw [hnone, if_pos hn, hn]
      simp [cell]
    · have hne : (r.name == name) = false := by
        rw [beq_eq_false_iff_ne]
        exact Ne.symm hn
      rw [hne, if_neg hn]

theorem find?_declared {t : RegisterTable} (h : (t.registers.map Register.name).Nodup)
    (name : String) :
    (declared t).registers.find? name = (t.find? name).map fun r => cell r none := by
  refine (find?_foldl_addRegister h {} name).trans ?_
  rw [show ({} : Value).registers.find? name = none from rfl, Option.or_none]

theorem memory_declared (t : RegisterTable) : (declared t).memory = {} := by
  have frame (l : List Register) (v : Value) :
      (l.foldl Value.addRegister v).memory = v.memory := by
    induction l generalizing v with
    | nil => rfl
    | cons r l ih => exact ih (v.addRegister r)
  exact frame t.registers {}

/-- A value that has a cell of the declared width for every register. -/
def Ready (t : RegisterTable) (v : Value) : Prop :=
  ∀ name r, t.find? name = some r →
    ∃ k, v.registers.find? name = some k ∧ k.width = r.width

theorem ready_declared {t : RegisterTable} (h : (t.registers.map Register.name).Nodup) :
    Ready t (declared t) := by
  intro name r hr
  refine ⟨cell r none, ?_, rfl⟩
  rw [find?_declared h, hr]
  rfl

theorem ready_putRegister {t : RegisterTable} {v : Value} (h : Ready t v)
    (e : String × Initializer) : Ready t (putRegister t v e) := by
  intro name r hr
  rw [putRegister]
  cases he : t.find? e.1 with
  | none => exact h name r hr
  | some r' =>
    simp only [Table.find?_insert]
    split
    · rename_i hn
      rw [hn, he] at hr
      cases hr
      exact ⟨_, rfl, rfl⟩
    · exact h name r hr

/-! ## Rounds -/

theorem checkRegister_of_bytes {i : Initializer} (h : i.content.isBytes = true) (r : Register) :
    i.checkRegister r = .error (.bytesForRegister r.name) := by
  rw [Initializer.checkRegister, if_pos h]

/-- What has been checked can be written to a register that has a cell. -/
theorem setRegister_of_checked {v : Value} {r : Register} {i : Initializer} {k : RegisterCell}
    (hi : i.checkRegister r = .ok ()) (hk : v.registers.find? r.name = some k)
    (hw : k.width = r.width) :
    v.setRegister r.name (pointedRegion r) i =
      .ok { v with registers := v.registers.insert r.name (cell r (some i)) } := by
  have hb : ¬i.content.isBytes = true := by
    intro hb
    rw [checkRegister_of_bytes hb] at hi
    cases hi
  rw [Value.setRegister, hk]
  simp only [hb, cell, hw, pointedRegion]
  rfl

theorem ends_writeRegister {t : RegisterTable} {v : Value} (h : Ready t v)
    (e : String × Initializer) :
    (writeRegister t e).ends v = (registerVerdict t e).map fun _ => putRegister t v e := by
  rw [writeRegister, registerVerdict, putRegister]
  cases he : t.find? e.1 with
  | none => exact ends_of_failed (run_fail _ v)
  | some r =>
    obtain ⟨k, hk, hw⟩ := h e.1 r he
    have hn := RegisterTable.name_of_find? he
    simp only
    cases hc : e.2.checkRegister r with
    | error f => exact ends_of_failed (run_bind_failed (run_ofExcept _ v))
    | ok u =>
      have hregion : ∃ name, (pointedRegion r).name = .ok name := by
        rw [pointedRegion]
        split
        · exact ⟨_, rfl⟩
        · exact ⟨_, rfl⟩
      obtain ⟨name, hname⟩ := hregion
      have hset := setRegister_of_checked hc (hn.symm ▸ hk) hw
      rw [hname, ends, run_bind_quiet (run_ofExcept _ v), run_bind_quiet (run_ofExcept _ v), log,
        run_bind_emit, run_tryModify, hset, hn]

/-- What is asked for in the region of the address is written without a warning. -/
theorem requestMemory_own (warnings : Bool) (place : Location) (i : Initializer) :
    Value.requestMemory warnings place place.address.region i =
      Action.modify fun v : Value => v.setMemory place i := by
  unfold Value.requestMemory
  rw [if_neg (not_not_intro rfl)]

theorem ends_writeMemory (region : Region) (size : UInt32) (e : Extent × Initializer)
    (v : Value) :
    (writeMemory region size e).ends v =
      (offsetVerdict e).map fun _ => putMemory region size v e := by
  rw [writeMemory, Address.make, offsetVerdict]
  split
  · exact ends_of_failed (run_bind_failed (run_ofExcept _ v))
  · have hwrite := requestMemory_own true ⟨⟨region, e.1.offset, size⟩, e.1.count⟩ e.2
    rw [ends, run_bind_quiet (run_ofExcept _ v), log, run_bind_emit, hwrite]
    rfl

theorem ends_writeRegion {c : Configuration} {region : Region} {t : MemoryTable}
    (h : c.memory region = .ok t) (v : Value) :
    (writeRegion c region).ends v =
      (t.entries.forM offsetVerdict).map fun _ =>
        t.entries.foldl (putMemory region c.addressSize) v := by
  have hrun : (writeRegion c region).ends v =
      (t.entries.forM (writeMemory region c.addressSize)).ends v := by
    rw [writeRegion, h, ends, run_bind_quiet (run_ofExcept _ v)]
    rfl
  rw [hrun, ends_forM]
  exact foldlM_eq_forM (P := fun _ => True) trivial
    (fun e v _ => ends_writeMemory region c.addressSize e v) fun _ _ _ => trivial

/-- A configuration has an initial value exactly if no check fails, and it is what is written. -/
theorem value_eq {c : Configuration} (h : c.WF) :
    value c = (verdict c).map fun _ => written c := by
  have hregisters : (c.contents.entries.forM (writeRegister c.registers)).ends
      (declared c.registers) =
      (c.contents.entries.forM (registerVerdict c.registers)).map fun _ =>
        c.contents.entries.foldl (putRegister c.registers) (declared c.registers) := by
    rw [ends_forM]
    exact foldlM_eq_forM (ready_declared h.names_nodup) (fun e v hv => ends_writeRegister hv e)
      fun e v hv => ready_putRegister hv e
  have hvalue : value c = (writeContents c).ends (declared c.registers) := rfl
  rw [hvalue]
  exact ends_seq hregisters (ends_seq (ends_writeRegion rfl _)
    (ends_seq (ends_writeRegion rfl _) (ends_writeRegion rfl _)))

/-! ## What is written -/

/-- Initial contents of registers that are written one after the other: the register of each name
has the one that was given to it, as no name comes twice. -/
theorem find?_foldl_putRegister {t : RegisterTable} {l : List (String × Initializer)}
    (h : l.Pairwise fun a b => compare a.1 b.1 = .lt) (v : Value) (name : String) :
    (l.foldl (putRegister t) v).registers.find? name =
      ((Table.valueIn? name l).bind fun i => (t.find? name).map fun r => cell r (some i)).or
        (v.registers.find? name) := by
  induction l generalizing v with
  | nil => rfl
  | cons e l ih =>
    obtain ⟨he, hl⟩ := List.pairwise_cons.1 h
    rw [List.foldl_cons, ih hl, Table.valueIn?_cons, putRegister]
    by_cases hn : name = e.1
    · have hnone : Table.valueIn? name l = none := by
        rw [Option.eq_none_iff_forall_ne_some]
        intro i hi
        obtain ⟨k, hk, hm⟩ := (Table.valueIn?_eq_some_iff hl).1 hi
        rw [hn, he (k, i) hm] at hk
        cases hk
      rw [hnone, if_pos (Std.compare_eq_iff_eq.2 hn), ← hn]
      cases t.find? name with
      | none => rfl
      | some r => simp [Table.find?_insert]
    · rw [if_neg (fun hc => hn (Std.compare_eq_iff_eq.1 hc))]
      cases t.find? e.1 with
      | none => rfl
      | some r => simp [Table.find?_insert, hn]

theorem memory_foldl_putRegister (t : RegisterTable) (l : List (String × Initializer))
    (v : Value) : (l.foldl (putRegister t) v).memory = v.memory := by
  induction l generalizing v with
  | nil => rfl
  | cons e l ih =>
    rw [List.foldl_cons, ih, putRegister]
    cases t.find? e.1 with
    | none => rfl
    | some r => rfl

theorem foldl_putMemory (region : Region) (size : UInt32) (l : List (Extent × Initializer))
    (v : Value) :
    l.foldl (putMemory region size) v =
      { v with
        memory := (l.map (located region size)).foldl (fun t e => t.insert e.1 e.2) v.memory } := by
  induction l generalizing v with
  | nil => rfl
  | cons e l ih => exact ih (putMemory region size v e)

/-- The locations of a configuration and the cells there, by region and extent. -/
def locations (c : Configuration) : List (Location × MemoryCell) :=
  c.globalMemory.entries.map (located .global c.addressSize) ++
    (c.stackMemory.entries.map (located .stack c.addressSize) ++
      c.heapMemory.entries.map (located .heap c.addressSize))

theorem sorted_located (region : Region) (size : UInt32) (t : MemoryTable) :
    (t.entries.map (located region size)).Pairwise fun a b => compare a.1 b.1 = .lt := by
  refine List.pairwise_map.2 (t.sorted.imp fun {a b} hab => ?_)
  rw [compare_location]
  change (compare region.code region.code).then (compare a.1 b.1) = .lt
  rw [Std.ReflOrd.compare_self, hab]
  rfl

theorem lt_of_mem_located {region region' : Region} (h : compare region.code region'.code = .lt)
    {size : UInt32} {l m : List (Extent × Initializer)} {a b : Location × MemoryCell}
    (ha : a ∈ l.map (located region size)) (hb : b ∈ m.map (located region' size)) :
    compare a.1 b.1 = .lt := by
  obtain ⟨e, -, rfl⟩ := List.mem_map.1 ha
  obtain ⟨f, -, rfl⟩ := List.mem_map.1 hb
  rw [compare_location]
  change (compare region.code region'.code).then _ = .lt
  rw [h]
  rfl

theorem sorted_locations (c : Configuration) :
    (locations c).Pairwise fun a b => compare a.1 b.1 = .lt := by
  refine List.pairwise_append.2 ⟨sorted_located _ _ _, ?_, fun a ha b hb => ?_⟩
  · exact List.pairwise_append.2 ⟨sorted_located _ _ _, sorted_located _ _ _, fun a ha b hb =>
      lt_of_mem_located (by decide) ha hb⟩
  · rcases List.mem_append.1 hb with hb | hb
    · exact lt_of_mem_located (by decide) ha hb
    · exact lt_of_mem_located (by decide) ha hb

/-- The memory of the initial value has the locations of the configuration, and no others. -/
theorem entries_memory_written (c : Configuration) : (written c).memory.entries = locations c := by
  rw [written]
  simp only [foldl_putMemory, memory_foldl_putRegister, memory_declared]
  rw [← List.foldl_append, ← List.foldl_append]
  exact Table.entries_foldl_alter (f := fun k _ => k) (fun _ => rfl) _ {}
    (sorted_locations c)

/-- Every declared register has a cell, and no other name has one. -/
theorem find?_registers_written {c : Configuration} (h : c.WF) (name : String) :
    (written c).registers.find? name =
      (c.registers.find? name).map fun r => cell r (c.contents.find? name) := by
  have hr : (written c).registers =
      (c.contents.entries.foldl (putRegister c.registers) (declared c.registers)).registers := by
    rw [written]
    simp only [foldl_putMemory]
  rw [hr, find?_foldl_putRegister c.contents.sorted, find?_declared h.names_nodup]
  change ((c.contents.find? name).bind _).or _ = _
  cases c.registers.find? name with
  | none => cases c.contents.find? name <;> rfl
  | some r => cases c.contents.find? name <;> rfl

end InitialValue

end FlowAutomaton
