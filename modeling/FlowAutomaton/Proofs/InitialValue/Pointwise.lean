/-
The initial value of a configuration, cell by cell. Whatever steps made the configuration, its
initial value has one cell for each declared register and one for each extent that was given an
initializer. A cell holds what was given last, or nothing is known of its register; neither the
other steps nor their order matter, and nothing that is written disturbs another cell.
-/
import FlowAutomaton.Proofs.InitialValue.Outcome

namespace FlowAutomaton.InitialValue

open FlowAutomaton.Configuration (Step configured accepted lastContent lastMemory)

/-! ## Locations -/

/-- The cell of a stretch of memory with the initializer that it was given. -/
def memoryCell (count : UInt32) (i : Initializer) : MemoryCell := ⟨count, i.content, i.taint⟩

/-- The extent of a location. -/
def extentOf (place : Location) : Extent := ⟨place.address.offset, place.count⟩

theorem compare_located (place : Location) (region : Region) (size : UInt32)
    (e : Extent × Initializer) :
    compare place (located region size e).1 = .eq ↔
      place.address.region = region ∧ compare (extentOf place) e.1 = .eq := by
  rw [compare_location, Ordering.then_eq_eq, Std.compare_eq_iff_eq]
  constructor
  · rintro ⟨hr, he⟩
    exact ⟨Region.code_injective hr, he⟩
  · rintro ⟨hr, he⟩
    exact ⟨congrArg Region.code hr, he⟩

/-- At a location of another region nothing is found. -/
theorem valueIn?_located (region : Region) (size : UInt32) (t : MemoryTable) (place : Location) :
    Table.valueIn? place (t.entries.map (located region size)) =
      if place.address.region = region then (t.find? (extentOf place)).map (memoryCell place.count)
      else none := by
  change _ = if _ then (Table.valueIn? (extentOf place) t.entries).map _ else none
  induction t.entries with
  | nil => simp [Table.valueIn?_nil]
  | cons e l ih =>
    rw [List.map_cons, Table.valueIn?_cons, Table.valueIn?_cons, ih]
    simp only [compare_located]
    by_cases hr : place.address.region = region
    · by_cases he : compare (extentOf place) e.1 = .eq
      · have hcount : place.count = e.1.count :=
          congrArg Extent.count (Std.LawfulEqCmp.eq_of_compare he)
        simp [hr, he, hcount, located, memoryCell]
      · simp [hr, he]
    · simp [hr]

theorem mem_keys_located {region : Region} {size : UInt32} {t : MemoryTable} {place : Location} :
    place ∈ (t.entries.map (located region size)).map Prod.fst ↔
      place.address.region = region ∧ place.address.size = size ∧
        ∃ i, t.find? (extentOf place) = some i := by
  simp only [← Table.mem_entries_iff, List.map_map, List.mem_map]
  constructor
  · rintro ⟨e, he, rfl⟩
    exact ⟨rfl, rfl, e.2, he⟩
  · rintro ⟨rfl, rfl, i, hi⟩
    exact ⟨(extentOf place, i), hi, rfl⟩

theorem memory?_written (c : Configuration) (place : Location) :
    (written c).memory? place =
      (c.memory? place.address.region (extentOf place)).map (memoryCell place.count) := by
  change Table.valueIn? place (written c).memory.entries = _
  rw [entries_memory_written, locations, Table.valueIn?_append, Table.valueIn?_append,
    valueIn?_located, valueIn?_located, valueIn?_located, Configuration.memory?]
  cases place.address.region <;> simp [Configuration.memory, Except.toOption]

theorem mem_keys_written {c : Configuration} {place : Location} :
    place ∈ (written c).memory.keys ↔
      place.address.size = c.addressSize ∧
        ∃ i, c.memory? place.address.region (extentOf place) = some i := by
  rw [Table.keys, entries_memory_written, locations, List.map_append, List.map_append,
    List.mem_append, List.mem_append, mem_keys_located, mem_keys_located, mem_keys_located,
    Configuration.memory?]
  cases place.address.region <;> simp [Configuration.memory, Except.toOption]

theorem size_memory_written (c : Configuration) :
    (written c).memory.size = c.globalMemory.size + c.stackMemory.size + c.heapMemory.size := by
  rw [Table.size, entries_memory_written, locations]
  simp only [List.length_append, List.length_map, Table.size]
  omega

/-! ## Registers -/

theorem keys_registers_written {c : Configuration} (h : c.WF) :
    (written c).registers.keys.Perm (c.registers.registers.map Register.name) := by
  refine (List.perm_ext_iff_of_nodup (Table.nodup_keys _) h.names_nodup).2 fun name => ?_
  rw [Table.mem_keys_iff, List.mem_map]
  simp only [find?_registers_written h, Option.map_eq_some_iff]
  constructor
  · rintro ⟨k, r, hr, rfl⟩
    exact ⟨r, RegisterTable.mem_of_find? hr, RegisterTable.name_of_find? hr⟩
  · rintro ⟨r, hr, rfl⟩
    exact ⟨_, r, RegisterTable.find?_of_mem h.names_nodup hr, rfl⟩

/-! ## The value -/

/-- A value is what some steps say, with addresses of a size. -/
structure DescribedBy (v : Value) (l : List Step) (size : UInt32) : Prop where
  /-- There is one cell for each register that was declared. -/
  registers : v.registers.keys.Perm ((Configuration.declared l).map Register.name)
  /-- The cell of a register holds what was given last to its name. -/
  register : ∀ r ∈ Configuration.declared l,
    v.registers.find? r.name = some (cell r (lastContent l r.name))
  /-- There is one cell for each extent of a region that was given something. -/
  locations : ∀ place, place ∈ v.memory.keys ↔
    place.address.size = size ∧ ∃ i, lastMemory l place.address.region (extentOf place) = some i
  /-- The cell of a location, if there is one, holds what was given last to its extent. -/
  memory : ∀ place, v.memory? place =
    (lastMemory l place.address.region (extentOf place)).map (memoryCell place.count)

/-- The initial value of a configuration, if it has one, is what the steps say that succeeded in
making the configuration. -/
theorem value_pointwise {ss : List Step} {v : Value} (h : value (configured ss) = .ok v) :
    DescribedBy v (accepted {} ss) (configured ss).addressSize ∧
      v.memory.size = (configured ss).globalMemory.size + (configured ss).stackMemory.size +
        (configured ss).heapMemory.size := by
  obtain ⟨holds, wf⟩ := Configuration.holds_configured ss
  have hv : v = written (configured ss) := by
    rw [value_eq wf] at h
    cases hc : verdict (configured ss) with
    | ok u =>
      rw [hc] at h
      exact (Except.ok.inj h).symm
    | error e =>
      rw [hc] at h
      cases h
  rw [hv]
  refine ⟨⟨?_, fun r hr => ?_, fun place => ?_, fun place => ?_⟩, size_memory_written _⟩
  · rw [← holds.registers]
    exact keys_registers_written wf
  · rw [← holds.registers] at hr
    rw [find?_registers_written wf, RegisterTable.find?_of_mem wf.names_nodup hr, holds.contents]
    rfl
  · rw [mem_keys_written, holds.memory]
  · rw [memory?_written, holds.memory]

/-- Two registers and two extents with the same place in different regions, some of which are
given something twice, and two steps that fail. -/
def overwritten : List Step :=
  [.declare "eax" 32, .declareStackPointer "esp" 16, .declare "eax" 8,
    .setRegister "eax" ⟨.exact 1, none⟩, .setRegister "ebx" ⟨.exact 2, none⟩,
    .setMemory .stack ⟨4, 2⟩ ⟨.bytes "ff", none⟩, .setMemory .global ⟨4, 2⟩ ⟨.exact 3, none⟩,
    .setRegister "esp" ⟨.exact 256, none⟩, .parameter "analyzer.address_sz" "64",
    .setRegister "eax" ⟨.masked 16 15, some (.exact 5)⟩, .setMemory .stack ⟨4, 2⟩ ⟨.exact 7, none⟩]

theorem value_pointwise_overwritten :
    ∃ v, value (configured overwritten) = .ok v ∧
      DescribedBy v (accepted {} overwritten) 64 ∧ v.memory.size = 2 ∧
      v.registers.find? "eax" = some ⟨32, .global, some (.masked 16 15), some (.exact 5)⟩ ∧
      v.registers.find? "esp" = some ⟨16, .stack, some (.exact 256), none⟩ ∧
      v.memory? ⟨⟨.stack, 4, 0⟩, 2⟩ = some ⟨2, .exact 7, none⟩ ∧
      v.memory? ⟨⟨.heap, 4, 0⟩, 2⟩ = none := by
  have hv : value (configured overwritten) = .ok (written (configured overwritten)) := rfl
  have hl : accepted {} overwritten = (overwritten.eraseIdx 4).eraseIdx 2 := rfl
  obtain ⟨hd, hn⟩ := value_pointwise hv
  have heax := hd.register ⟨"eax", 32, false⟩ (by rw [hl]; exact .head _)
  have hesp := hd.register ⟨"esp", 16, true⟩ (by rw [hl]; exact .tail _ (.head _))
  rw [hl] at heax hesp
  refine ⟨_, hv, hd, hn, heax, hesp, ?_, ?_⟩
  · rw [hd.memory, hl]
    rfl
  · rw [hd.memory, hl]
    rfl

end FlowAutomaton.InitialValue
