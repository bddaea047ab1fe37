/-
Tables of registers and the calls that declare them. What a call can do is said once (`Tried`): it
is refused for one of three reasons, or its register comes last. So the names of a table stay
distinct, no width is zero and there is one stack pointer at most, whatever calls are made.
-/
import FlowAutomaton.Register

namespace FlowAutomaton.RegisterTable

variable {t : RegisterTable} {r : Register} {name : String}

/-! ## Look-up -/

theorem name_of_find? (h : t.find? name = some r) : r.name = name := by
  simpa using List.find?_some h

theorem mem_of_find? (h : t.find? name = some r) : r ∈ t.registers := List.mem_of_find?_eq_some h

theorem find?_of_mem (h : (t.registers.map Register.name).Nodup) (hr : r ∈ t.registers) :
    t.find? r.name = some r := by
  obtain ⟨registers⟩ := t
  unfold find?
  induction registers with
  | nil => cases hr
  | cons r' l ih =>
    obtain ⟨hn, hl⟩ := List.nodup_cons.1 h
    rw [List.find?_cons]
    rcases List.mem_cons.1 hr with rfl | hr
    · simp
    · have hne : (r'.name == r.name) = false := by
        rw [beq_eq_false_iff_ne]
        exact fun he => hn (he ▸ List.mem_map_of_mem hr)
      rw [hne]
      exact ih hl hr

theorem find?_eq_none_iff : t.find? name = none ↔ ∀ r ∈ t.registers, r.name ≠ name := by
  unfold find?
  simp

/-- A register is found exactly if it is in the table, as no name comes twice. -/
theorem find?_eq_some_iff (h : (t.registers.map Register.name).Nodup) :
    t.find? name = some r ↔ r ∈ t.registers ∧ r.name = name := by
  constructor
  · exact fun hr => ⟨mem_of_find? hr, name_of_find? hr⟩
  · rintro ⟨hr, rfl⟩
    exact find?_of_mem h hr

theorem find?_concat {l : List Register} (h : find? ⟨l⟩ name = some r) (r' : Register) :
    find? ⟨l ++ [r']⟩ name = some r := by
  unfold find? at h ⊢
  rw [List.find?_append, h]
  rfl

/-! ## Calls -/

/-- A call that declares a register. -/
inductive Call where
  | declare (name : String) (width : UInt32)
  | declareStackPointer (name : String) (width : UInt32)

namespace Call

/-- The register that a call declares. -/
def register : Call → Register
  | declare name width => ⟨name, width, false⟩
  | declareStackPointer name width => ⟨name, width, true⟩

/-- What a call makes of a table. -/
def attempt : Call → RegisterTable → Except Fault RegisterTable
  | declare name width, t => t.declare name width
  | declareStackPointer name width, t => t.declareStackPointer name width

end Call

/-- What a call can do: it is refused for the register that it would add, or adds it. -/
inductive Tried (t : RegisterTable) (r : Register) : Except Fault RegisterTable → Prop
  | stackPointerTaken {r' : Register} (hr : r.isStackPointer = true) (hmem : r' ∈ t.registers)
    (hr' : r'.isStackPointer = true) : Tried t r (.error (.stackPointerTaken r'.name))
  | zeroWidth (hr : r.width = 0) : Tried t r (.error (.zeroWidth r.name))
  | alreadyDeclared {r' : Register} (hmem : r' ∈ t.registers) (hr' : r'.name = r.name) :
    Tried t r (.error (.alreadyDeclared r.name))
  | added (hfree : r.isStackPointer = true → ∀ r' ∈ t.registers, r'.isStackPointer = false)
    (hwidth : r.width ≠ 0) (hnew : ∀ r' ∈ t.registers, r'.name ≠ r.name) :
    Tried t r (.ok ⟨t.registers ++ [r]⟩)

theorem tried_add (hfree : r.isStackPointer = true → ∀ r' ∈ t.registers, r'.isStackPointer = false) :
    Tried t r (t.add r) := by
  unfold add
  split
  · rename_i hw
    exact .zeroWidth hw
  · rename_i hw
    split
    · rename_i hsome
      obtain ⟨r', hr'⟩ := Option.isSome_iff_exists.1 hsome
      exact .alreadyDeclared (mem_of_find? hr') (name_of_find? hr')
    · rename_i hnone
      exact .added hfree hw (find?_eq_none_iff.1 (Option.not_isSome_iff_eq_none.1 hnone))

/-- Every call is refused for a reason or adds its register. -/
theorem tried (t : RegisterTable) (c : Call) : Tried t c.register (c.attempt t) := by
  cases c with
  | declare name width => exact tried_add (r := ⟨name, width, false⟩) nofun
  | declareStackPointer name width =>
    change Tried t _ (t.declareStackPointer name width)
    unfold declareStackPointer
    split
    · rename_i r' hr'
      exact .stackPointerTaken rfl (List.mem_of_find?_eq_some hr') (List.find?_some hr')
    · rename_i hnone
      refine tried_add (r := ⟨name, width, true⟩) fun _ r' hr' => ?_
      simpa using List.find?_eq_none.1 hnone r' hr'

/-- A call is refused exactly if there is a reason. -/
theorem attempt_eq_error_iff (t : RegisterTable) (c : Call) :
    (∃ e, c.attempt t = .error e) ↔
      (c.register.isStackPointer = true ∧ ∃ r ∈ t.registers, r.isStackPointer = true) ∨
        c.register.width = 0 ∨ ∃ r ∈ t.registers, r.name = c.register.name := by
  have h := tried t c
  generalize c.attempt t = x at h
  cases h with
  | stackPointerTaken hr hmem hr' => exact iff_of_true ⟨_, rfl⟩ (.inl ⟨hr, _, hmem, hr'⟩)
  | zeroWidth hr => exact iff_of_true ⟨_, rfl⟩ (.inr (.inl hr))
  | alreadyDeclared hmem hr' => exact iff_of_true ⟨_, rfl⟩ (.inr (.inr ⟨_, hmem, hr'⟩))
  | added hfree hwidth hnew =>
    refine iff_of_false nofun ?_
    rintro (⟨hr, r, hmem, hr'⟩ | hw | ⟨r, hmem, hr'⟩)
    · rw [hfree hr r hmem] at hr'
      cases hr'
    · exact hwidth hw
    · exact hnew r hmem hr'

theorem declare_eq_error_iff (t : RegisterTable) (name : String) (width : UInt32) :
    (∃ e, t.declare name width = .error e) ↔ width = 0 ∨ ∃ r ∈ t.registers, r.name = name := by
  refine (attempt_eq_error_iff t (.declare name width)).trans ?_
  simp [Call.register]

theorem declareStackPointer_eq_error_iff (t : RegisterTable) (name : String) (width : UInt32) :
    (∃ e, t.declareStackPointer name width = .error e) ↔
      (∃ r ∈ t.registers, r.isStackPointer = true) ∨ width = 0 ∨
        ∃ r ∈ t.registers, r.name = name := by
  refine (attempt_eq_error_iff t (.declareStackPointer name width)).trans ?_
  simp [Call.register]

/-! ## Runs -/

/-- The table after a call, also after one that was refused. -/
def after (t : RegisterTable) (c : Call) : RegisterTable := ((c.attempt t).toOption).getD t

/-- The table after some calls, one after the other. -/
def afterAll (t : RegisterTable) (cs : List Call) : RegisterTable := cs.foldl after t

/-- The registers that some calls add, one after the other. -/
def accepted (t : RegisterTable) : List Call → List Register
  | [] => []
  | c :: cs =>
    match c.attempt t with
    | .ok t' => c.register :: accepted t' cs
    | .error _ => accepted t cs

/-- What holds of a table at any time. -/
structure WF (t : RegisterTable) : Prop where
  names_nodup : (t.registers.map Register.name).Nodup
  widths_ne_zero : ∀ r ∈ t.registers, r.width ≠ 0
  /-- There is one stack pointer at most. -/
  stackPointer_unique : t.registers.countP Register.isStackPointer ≤ 1

theorem WF.empty : WF {} := ⟨List.nodup_nil, nofun, Nat.zero_le 1⟩

/-- A call keeps what holds of a table, also a call that is refused. -/
theorem WF.after (h : t.WF) (c : Call) : (t.after c).WF := by
  have htried := tried t c
  unfold RegisterTable.after
  generalize c.attempt t = x at htried
  cases htried with
  | added hfree hwidth hnew =>
    refine ⟨?_, fun r hr => ?_, ?_⟩
    · change ((t.registers ++ [c.register]).map Register.name).Nodup
      rw [List.map_append, List.nodup_append]
      refine ⟨h.names_nodup, List.pairwise_singleton _ _, ?_⟩
      intro a ha b hb
      obtain ⟨r, hr, rfl⟩ := List.mem_map.1 ha
      rw [List.mem_singleton.1 hb]
      exact hnew r hr
    · rcases List.mem_append.1 hr with hr | hr
      · exact h.widths_ne_zero r hr
      · rw [List.mem_singleton.1 hr]
        exact hwidth
    · change (t.registers ++ [c.register]).countP Register.isStackPointer ≤ 1
      rw [List.countP_append, List.countP_singleton]
      split
      · rename_i hs
        have hzero : t.registers.countP Register.isStackPointer = 0 := by
          rw [List.countP_eq_zero]
          intro r hr
          simp [hfree hs r hr]
        omega
      · exact h.stackPointer_unique
  | _ => exact h

theorem WF.afterAll (h : t.WF) (cs : List Call) : (t.afterAll cs).WF :=
  List.foldlRecOn cs RegisterTable.after (motive := WF) h fun _ ht c _ => WF.after ht c

/-- A table lists the registers that were added, in the order of the calls. -/
theorem registers_afterAll (t : RegisterTable) (cs : List Call) :
    (t.afterAll cs).registers = t.registers ++ accepted t cs := by
  induction cs generalizing t with
  | nil => exact (List.append_nil _).symm
  | cons c cs ih =>
    have htried := tried t c
    have hrun : t.afterAll (c :: cs) = (t.after c).afterAll cs := rfl
    rw [hrun, ih, accepted, RegisterTable.after]
    generalize c.attempt t = x at htried
    cases htried with
    | added hfree hwidth hnew => exact List.append_assoc _ _ _
    | _ => rfl

end FlowAutomaton.RegisterTable
