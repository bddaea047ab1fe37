/-
Updates of values as data. What an update does is one cell that it writes (`Update.write`), at the
register or the stretch of memory that it is about; whether there is one to write, and what is in it,
is settled by what the value has there and nowhere else (`write_put`). An update that fails changes
nothing.
-/
import FlowAutomaton.Proofs.Action
import FlowAutomaton.Proofs.Place
import FlowAutomaton.Proofs.Table.Entry

namespace FlowAutomaton.Value

/-! ## Updates -/

/-- An update of a value. Whether warnings are shown can matter to a request for memory. -/
inductive Update where
  | addRegister (r : Register)
  | setRegister (name : String) (region : Region) (i : Initializer)
  | setMemory (warnings : Bool) (place : Location) (region : Region) (i : Initializer)

/-- The action of an update. -/
def Update.action : Update → Action Value Unit
  | addRegister r => Action.modify (·.addRegister r)
  | setRegister name region i => Action.tryModify (·.setRegister name region i)
  | setMemory warnings place region i => requestMemory warnings place region i

/-- The value after an update, also after one that failed. -/
def after (v : Value) (u : Update) : Value := (u.action.run v).state

/-- The value after some updates, one after the other. -/
def afterAll (v : Value) (us : List Update) : Value := us.foldl after v

/-- The updates that succeed, of some updates one after the other. -/
def accepted (v : Value) : List Update → List Update
  | [] => []
  | u :: us =>
    match (u.action.run v).result with
    | .ok () => u :: accepted (v.after u) us
    | .error _ => accepted (v.after u) us

/-! ## Cells that are written -/

/-- What is written to: a register, or a stretch of memory. -/
inductive Target where
  | register (name : String)
  | memory (region : Region) (offset : Int) (count : UInt32)
  deriving DecidableEq

/-- The target of a location. -/
def Target.ofLocation (place : Location) : Target :=
  .memory place.address.region place.address.offset place.count

/-- What an update is about. -/
def Update.target : Update → Target
  | addRegister r => .register r.name
  | setRegister name _ _ => .register name
  | setMemory _ place _ _ => .ofLocation place

/-- A cell with what it is written to. -/
inductive Write where
  | register (name : String) (cell : RegisterCell)
  | memory (place : Location) (cell : MemoryCell)

/-- What a cell is written to. -/
def Write.target : Write → Target
  | register name _ => .register name
  | memory place _ => .ofLocation place

/-- A value with a cell written. -/
def put (v : Value) : Write → Value
  | .register name cell => { v with registers := v.registers.insert name cell }
  | .memory place cell => { v with memory := v.memory.insert place cell }

/-- Whether memory that is asked for in a region is written: not where a warning is to be shown about
a region without a name. -/
def memoryVerdict (warnings : Bool) (place : Location) (region : Region) : Except Fault Unit :=
  if place.address.region ≠ region ∧ warnings = true then region.name.map fun _ => () else .ok ()

/-- The cell that an update writes, unless it fails. -/
def Update.write (v : Value) : Update → Except Fault Write
  | addRegister r => .ok (.register r.name { width := r.width })
  | setRegister name region i =>
    match v.registers.find? name with
    | none => .error (.registerNotAdded name)
    | some cell =>
      if i.content.isBytes then .error (.bytesForRegister name)
      else .ok (.register name ⟨cell.width, region, some i.content, i.taint⟩)
  | setMemory warnings place region i =>
    (memoryVerdict warnings place region).map fun _ =>
      .memory place ⟨place.count, i.content, i.taint⟩

/-! ## What an update does -/

variable {v : Value} {u : Update} {w : Write} {e : Fault}

/-- An update that succeeds leaves the value with its cell written, and one that fails leaves the value
as it was. -/
theorem outcome_action (v : Value) (u : Update) :
    (u.action.run v).result = (u.write v).map (fun _ => ()) ∧
      v.after u = match u.write v with
        | .ok w => v.put w
        | .error _ => v := by
  cases u with
  | addRegister r => exact ⟨rfl, rfl⟩
  | setRegister name region i =>
    rw [after, Update.action, Action.run_tryModify, setRegister, Update.write]
    cases v.registers.find? name with
    | none => exact ⟨rfl, rfl⟩
    | some cell =>
      dsimp only
      by_cases hb : i.content.isBytes = true
      · rw [if_pos hb, if_pos hb]
        exact ⟨rfl, rfl⟩
      · rw [if_neg hb, if_neg hb]
        exact ⟨rfl, rfl⟩
  | setMemory warnings place region i =>
    rw [after, Update.action, requestMemory, Update.write, memoryVerdict]
    by_cases hr : place.address.region = region
    · simp only [hr, ne_eq, not_true_eq_false, if_false, false_and]
      exact ⟨rfl, rfl⟩
    · cases hn : region.name with
      | ok name =>
        simp only [hr, ne_eq, not_false_eq_true, if_true, true_and, Action.run_bind_emit]
        split
        · exact ⟨rfl, rfl⟩
        · exact ⟨rfl, rfl⟩
      | error f =>
        -- the warning breaks off, which is a failure only where it is shown
        simp only [hr, ne_eq, not_false_eq_true, if_true, true_and, Action.run_bind_emit]
        cases warnings with
        | true => exact ⟨rfl, rfl⟩
        | false => exact ⟨rfl, rfl⟩

theorem result_action (v : Value) (u : Update) :
    (u.action.run v).result = (u.write v).map fun _ => () :=
  (outcome_action v u).1

theorem after_of_ok (h : u.write v = .ok w) : v.after u = v.put w := by
  rw [(outcome_action v u).2, h]

theorem after_of_error (h : u.write v = .error e) : v.after u = v := by
  rw [(outcome_action v u).2, h]

theorem accepted_cons_of_ok (h : u.write v = .ok w) (us : List Update) :
    v.accepted (u :: us) = u :: (v.put w).accepted us := by
  rw [accepted, result_action, after_of_ok h, h]
  rfl

theorem accepted_cons_of_error (h : u.write v = .error e) (us : List Update) :
    v.accepted (u :: us) = v.accepted us := by
  rw [accepted, result_action, after_of_error h, h]
  rfl

theorem register_eq_ok_iff {name : String} {k : RegisterCell} :
    v.register name = .ok k ↔ v.registers.find? name = some k := by
  rw [register]
  cases v.registers.find? name with
  | none => simp
  | some k' => simp

theorem register_put_self {name : String} {k : RegisterCell} :
    (v.put (.register name k)).register name = .ok k :=
  register_eq_ok_iff.2 (v.registers.find?_insert_self name k)

/-- A register is written if it was added, with anything but bytes. -/
theorem write_setRegister {name : String} {region : Region} {i : Initializer}
    (h : (Update.setRegister name region i).write v = .ok w) :
    ∃ old, v.register name = .ok old ∧ i.content.isBytes = false ∧
      w = .register name ⟨old.width, region, some i.content, i.taint⟩ := by
  rw [Update.write] at h
  split at h
  · cases h
  · rename_i old hf
    split at h
    · cases h
    · rename_i hb
      cases h
      exact ⟨old, register_eq_ok_iff.2 hf, eq_false_of_ne_true hb, rfl⟩

theorem write_setMemory {warnings : Bool} {place : Location} {region : Region} {i : Initializer}
    (h : (Update.setMemory warnings place region i).write v = .ok w) :
    w = .memory place ⟨place.count, i.content, i.taint⟩ := by
  rw [Update.write] at h
  cases hv : memoryVerdict warnings place region with
  | error f =>
    rw [hv] at h
    cases h
  | ok x =>
    rw [hv] at h
    cases h
    rfl

/-- An update writes to what it is about. -/
theorem target_write (h : u.write v = .ok w) : w.target = u.target := by
  cases u with
  | addRegister r =>
    cases h
    rfl
  | setRegister name region i =>
    obtain ⟨old, -, -, rfl⟩ := write_setRegister h
    rfl
  | setMemory warnings place region i =>
    rw [write_setMemory h]
    rfl

/-! ## Runs -/

/-- What holds of a value and the updates that made it holds after a run, if each cell that is written
keeps it. -/
theorem run_induction {P : Value → List Update → Prop} {l : List Update} (h : P v l)
    (step : ∀ {v l u w}, P v l → u.write v = .ok w → P (v.put w) (l ++ [u])) (us : List Update) :
    P (v.afterAll us) (l ++ v.accepted us) := by
  induction us generalizing v l with
  | nil =>
    rw [accepted, List.append_nil]
    exact h
  | cons u us ih =>
    change P ((v.after u).afterAll us) _
    cases hw : u.write v with
    | ok w =>
      rw [accepted_cons_of_ok hw, after_of_ok hw, List.append_cons]
      exact ih (step h hw)
    | error e =>
      rw [accepted_cons_of_error hw, after_of_error hw]
      exact ih h

theorem accepted_sublist (v : Value) (us : List Update) : (v.accepted us).Sublist us := by
  induction us generalizing v with
  | nil => exact .slnil
  | cons u us ih =>
    cases hw : u.write v with
    | ok w =>
      rw [accepted_cons_of_ok hw]
      exact (ih _).cons_cons u
    | error e =>
      rw [accepted_cons_of_error hw]
      exact (ih v).cons u

/-- All updates succeed if the first one does and then all others do. -/
theorem accepted_cons_eq_self_iff {us : List Update} :
    v.accepted (u :: us) = u :: us ↔ ∃ w, u.write v = .ok w ∧ (v.put w).accepted us = us := by
  cases hw : u.write v with
  | ok w =>
    rw [accepted_cons_of_ok hw]
    simp
  | error e =>
    rw [accepted_cons_of_error hw]
    refine iff_of_false (fun h => ?_) (fun ⟨w, hw', _⟩ => by cases hw')
    have hle := (accepted_sublist v us).length_le
    rw [h, List.length_cons] at hle
    omega

/-- Registers are always added. -/
theorem mem_accepted_of_add {r : Register} {us : List Update} (h : .addRegister r ∈ us) (v : Value) :
    .addRegister r ∈ v.accepted us := by
  induction us generalizing v with
  | nil => cases h
  | cons u us ih =>
    rcases List.mem_cons.1 h with rfl | h
    · rw [accepted_cons_of_ok rfl]
      exact List.mem_cons_self
    · cases hw : u.write v with
      | ok w =>
        rw [accepted_cons_of_ok hw]
        exact List.mem_cons_of_mem u (ih h _)
      | error e =>
        rw [accepted_cons_of_error hw]
        exact ih h v

/-! ## Cells that are written elsewhere -/

theorem compare_ne_of_register {name name' : String}
    (h : Target.register name ≠ .register name') : compare name name' ≠ .eq :=
  fun hc => h (congrArg Target.register (Std.compare_eq_iff_eq.1 hc))

theorem Target.ofLocation_eq_iff {l k : Location} : ofLocation l = ofLocation k ↔ l.Same k := by
  rw [ofLocation, ofLocation, memory.injEq]
  exact ⟨fun ⟨hr, ho, hc⟩ => ⟨⟨hr, ho⟩, hc⟩, fun h => ⟨h.place.region, h.place.offset, h.count⟩⟩

theorem compare_ne_of_ofLocation {l k : Location} (h : Target.ofLocation l ≠ .ofLocation k) :
    compare l k ≠ .eq :=
  fun hc => h (Target.ofLocation_eq_iff.2 (Location.compare_eq_iff.1 hc))

/-- A register is as it was after a cell is written elsewhere. -/
theorem register_put_of_ne {name : String} (h : w.target ≠ .register name) :
    (v.put w).register name = v.register name := by
  cases w with
  | register name' cell =>
    rw [register, put, v.registers.find?_insert_of_ne cell (compare_ne_of_register h.symm), register]
  | memory place cell => rfl

/-- A stretch of memory is as it was after a cell is written elsewhere. -/
theorem memory?_put_of_ne {place : Location} (h : w.target ≠ .ofLocation place) :
    (v.put w).memory? place = v.memory? place := by
  cases w with
  | register name cell => rfl
  | memory place' cell => exact v.memory.find?_insert_of_ne cell (compare_ne_of_ofLocation h.symm)

/-- A cell that is written elsewhere does not matter to an update. -/
theorem write_put (h : w.target ≠ u.target) : u.write (v.put w) = u.write v := by
  cases u with
  | addRegister r => rfl
  | setRegister name region i =>
    cases w with
    | register name' cell =>
      rw [Update.write, put, v.registers.find?_insert_of_ne cell (compare_ne_of_register h.symm),
        Update.write]
    | memory place cell => rfl
  | setMemory warnings place region i => rfl

/-- Cells that are written to different targets are written in either order. -/
theorem put_comm {w w' : Write} (h : w.target ≠ w'.target) :
    (v.put w).put w' = (v.put w').put w := by
  cases w with
  | register name cell =>
    cases w' with
    | register name' cell' =>
      rw [put, put, put, put, Table.insert_comm (compare_ne_of_register h)]
    | memory place' cell' => rfl
  | memory place cell =>
    cases w' with
    | register name' cell' => rfl
    | memory place' cell' =>
      rw [put, put, put, put, Table.insert_comm (compare_ne_of_ofLocation h)]

end FlowAutomaton.Value
