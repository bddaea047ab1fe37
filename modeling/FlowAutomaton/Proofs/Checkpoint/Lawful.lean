/-
Every stored value is read back: the reader of a type takes from the front of some fields exactly
those that were written for a value, and answers with that value. A law for each way of putting
values together gives the law of states.
-/
import FlowAutomaton.Checkpoint.Record
import FlowAutomaton.Proofs.Numeral.RoundTrip
import FlowAutomaton.Proofs.Table

namespace FlowAutomaton.Checkpoint

/-- Types of which the stored form is read back, whatever fields come after it. -/
class LawfulStorable (α : Type) [Storable α] : Prop where
  read_write : ∀ (a : α) (rest : List Field), (read : Reader α).run (write a ++ rest) = .ok (a, rest)

export LawfulStorable (read_write)

/-- Values with the same stored form are the same. -/
theorem write_inj {α : Type} [Storable α] [LawfulStorable α] {a b : α} :
    (write a : List Field) = write b ↔ a = b := by
  refine ⟨fun h => ?_, congrArg write⟩
  have hab := (read_write a []).symm.trans (h ▸ read_write b [])
  cases hab
  rfl

/-! ## Readers in a row -/

variable {α β : Type}

theorem Reader.run_bind_of_ok {r : Reader α} {fs rest : List Field} {a : α}
    (h : r.run fs = .ok (a, rest)) (f : α → Reader β) : (r >>= f).run fs = (f a).run rest := by
  rw [StateT.run_bind, h]
  rfl

section

variable [Storable α] [LawfulStorable α]

@[simp] theorem run_read_bind (a : α) (rest : List Field) (f : α → Reader β) :
    ((read : Reader α) >>= f).run (write a ++ rest) = (f a).run rest :=
  Reader.run_bind_of_ok (read_write a rest) f

@[simp] theorem run_map_read (a : α) (rest : List Field) (f : α → β) :
    (f <$> (read : Reader α)).run (write a ++ rest) = .ok (f a, rest) := by
  rw [← bind_pure_comp, run_read_bind]
  rfl

theorem run_times_read : ∀ (l : List α) (rest : List Field),
    (Reader.times read l.length).run (l.flatMap write ++ rest) = .ok (l, rest)
  | [], _ => rfl
  | a :: l, rest => by
    rw [List.flatMap_cons, List.append_assoc, List.length_cons, Reader.times, run_read_bind,
      Reader.run_bind_of_ok (run_times_read l rest)]
    rfl

end

/-! ## Plain values -/

instance : LawfulStorable Bool := ⟨fun _ _ => rfl⟩

instance : LawfulStorable UInt8 := ⟨fun _ _ => rfl⟩

instance : LawfulStorable UInt32 := ⟨fun _ _ => rfl⟩

instance : LawfulStorable UInt64 := ⟨fun _ _ => rfl⟩

instance : LawfulStorable Nat := ⟨fun _ _ => rfl⟩

instance : LawfulStorable String := ⟨fun _ _ => rfl⟩

/-! ## Compound values -/

instance [Storable α] [Storable β] [LawfulStorable α] [LawfulStorable β] :
    LawfulStorable (α × β) where
  read_write p rest := by
    unfold instStorableProd
    simp only [List.append_assoc, run_read_bind]
    rfl

instance [Storable α] [LawfulStorable α] : LawfulStorable (Option α) where
  read_write o rest := by
    cases o with
    | none =>
      unfold instStorableOption
      simp only [run_read_bind]
      rfl
    | some a =>
      unfold instStorableOption
      simp only [List.append_assoc, run_read_bind, if_true]
      exact run_map_read a rest some

instance [Storable α] [LawfulStorable α] : LawfulStorable (List α) where
  read_write l rest := by
    unfold instStorableList
    simp only [List.append_assoc, run_read_bind]
    exact run_times_read l rest

/-- A table is stored by its entries in order, so none of them meets another one of its key. -/
instance {κ υ : Type} [Ord κ] [Std.TransOrd κ] [Storable κ] [Storable υ] [LawfulStorable κ]
    [LawfulStorable υ] : LawfulStorable (Table κ υ) where
  read_write t rest := by
    unfold instStorableTableOfTransOrd
    simp only [run_read_bind, Table.foldl_insertIfNew_entries]
    rfl

/-! ## Numbers, addresses and statements -/

instance : LawfulStorable Int where
  read_write n rest := by
    unfold instStorableInt
    simp only [run_read_bind, Numeral.parse_hex]
    rfl

instance : LawfulStorable Region where
  read_write r rest := by
    unfold instStorableRegion
    simp only [run_map_read, Region.ofCode_code]

instance : LawfulStorable Address where
  read_write a rest := by
    unfold instStorableAddress
    simp only [List.append_assoc, run_read_bind]
    rfl

instance : LawfulStorable Statement where
  read_write s rest := by
    unfold instStorableStatement
    simp only [List.append_assoc, run_read_bind, Statement.Kind.ofCode_code]
    rfl

/-! ## Values -/

instance : LawfulStorable Content where
  read_write c rest := by
    unfold instStorableContent
    cases c with
    | exact v =>
      simp only [List.append_assoc, run_read_bind, reduceIte]
      rfl
    | masked v m =>
      have h : (1 : UInt32) ≠ 0 := by decide
      simp only [List.append_assoc, run_read_bind, reduceIte, h]
      rfl
    | bytes p =>
      have h : (2 : UInt32) ≠ 0 := by decide
      have h' : (2 : UInt32) ≠ 1 := by decide
      simp only [List.append_assoc, run_read_bind, reduceIte, h, h']
      rfl

instance : LawfulStorable Taint where
  read_write t rest := by
    unfold instStorableTaint
    cases t with
    | exact v =>
      simp only [List.append_assoc, run_read_bind, reduceIte]
      rfl
    | masked v m =>
      have h : (1 : UInt32) ≠ 0 := by decide
      simp only [List.append_assoc, run_read_bind, reduceIte, h]
      rfl

instance : LawfulStorable RegisterCell where
  read_write c rest := by
    unfold instStorableRegisterCell
    simp only [List.append_assoc, run_read_bind]
    rfl

instance : LawfulStorable MemoryCell where
  read_write c rest := by
    unfold instStorableMemoryCell
    simp only [List.append_assoc, run_read_bind]
    rfl

instance : LawfulStorable Location where
  read_write l rest := by
    unfold instStorableLocation
    simp only [List.append_assoc, run_read_bind]
    rfl

instance : LawfulStorable Value where
  read_write v rest := by
    unfold instStorableValue
    simp only [List.append_assoc, run_read_bind]
    rfl

/-! ## States -/

instance : LawfulStorable DecodingContext where
  read_write c rest := by
    unfold instStorableDecodingContext
    simp only [List.append_assoc, run_read_bind]
    rfl

instance : LawfulStorable State where
  read_write s rest := by
    unfold instStorableState
    simp only [List.append_assoc, run_read_bind]
    rfl

end FlowAutomaton.Checkpoint
