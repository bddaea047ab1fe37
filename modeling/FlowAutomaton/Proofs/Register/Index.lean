/-
Registers with an index. The registers are kept in the order of their declarations, and for each
name there is the position of its register among them; a position is looked up and then trusted.
So the two have to stay in step, whatever calls are made and whichever of them are refused. They do
(`InStep`): an indexed table goes through the same states as the plain one, fails where that does,
with nothing changed, and gives the same answers.
-/
import FlowAutomaton.Proofs.Action
import FlowAutomaton.Proofs.Register.Table
import FlowAutomaton.Proofs.Table

namespace FlowAutomaton

/-- Registers in the order of their declarations, and the positions of their names. -/
structure IndexedRegisters where
  registers : List Register := []
  positions : Table String Nat := {}

namespace IndexedRegisters

open FlowAutomaton.Action
open FlowAutomaton.RegisterTable (Call)

/-! ## Operations -/

/-- Adds a register and answers with the one that is then the last. The position is that of the
register before it is there. -/
def insert (r : Register) : Action IndexedRegisters (Option Register) := do
  if r.width = 0 then Action.fail (.zeroWidth r.name)
  let x ← Action.get
  if x.positions.contains r.name then Action.fail (.alreadyDeclared r.name)
  Action.modify fun x =>
    { x with positions := x.positions.insertIfNew r.name x.registers.length }
  Action.modify fun x => { x with registers := x.registers ++ [r] }
  let x ← Action.get
  pure x.registers.getLast?

/-- Refuses a second stack pointer. -/
def refuseSecond (r : Register) : Action IndexedRegisters Unit :=
  if r.isStackPointer then Action.fail (.stackPointerTaken r.name) else pure ()

/-- Declares the stack pointer, after a look at all registers. -/
def insertStackPointer (r : Register) : Action IndexedRegisters (Option Register) := do
  let x ← Action.get
  x.registers.forM refuseSecond
  insert r

/-- What a call does. -/
def call : Call → Action IndexedRegisters (Option Register)
  | .declare name width => insert ⟨name, width, false⟩
  | .declareStackPointer name width => insertStackPointer ⟨name, width, true⟩

/-- The register of a name: nothing without a position for the name, and else what is found at the
position. -/
def lookUp (x : IndexedRegisters) (name : String) : Option (Option Register) :=
  (x.positions.find? name).map fun k => x.registers[k]?

/-- The indexed table after a call, also after one that failed. -/
def after (x : IndexedRegisters) (c : Call) : IndexedRegisters := ((call c).run x).state

/-- The indexed table after some calls, one after the other. -/
def afterAll (x : IndexedRegisters) (cs : List Call) : IndexedRegisters := cs.foldl after x

/-! ## In step -/

/-- The positions are those of the registers with the names, and of all of them. -/
def InStep (x : IndexedRegisters) : Prop :=
  ∀ name k, x.positions.find? name = some k ↔ ∃ r, x.registers[k]? = some r ∧ r.name = name

variable {x : IndexedRegisters} {r : Register}

/-- The registers without the index. -/
def plain (x : IndexedRegisters) : RegisterTable := ⟨x.registers⟩

/-- With a register at the end and its position. -/
def push (x : IndexedRegisters) (r : Register) : IndexedRegisters :=
  ⟨x.registers ++ [r], x.positions.insertIfNew r.name x.registers.length⟩

theorem InStep.empty : InStep {} := by
  intro name k
  simp [show ({} : IndexedRegisters).positions.find? name = none from rfl]

/-- There is a position for the names of registers, and for no others. -/
theorem InStep.positions_eq_none_iff (h : x.InStep) (name : String) :
    x.positions.find? name = none ↔ ∀ r ∈ x.registers, r.name ≠ name := by
  rw [Option.eq_none_iff_forall_ne_some]
  constructor
  · intro hnone r hr hn
    obtain ⟨k, hk⟩ := List.getElem?_of_mem hr
    exact hnone k ((h name k).2 ⟨r, hk, hn⟩)
  · intro hnone k hk
    obtain ⟨r, hr, hn⟩ := (h name k).1 hk
    exact hnone r (List.mem_of_getElem? hr) hn

theorem getElem?_concat_eq_some_iff {α : Type} {l : List α} {a b : α} {k : Nat} :
    (l ++ [a])[k]? = some b ↔ l[k]? = some b ∨ k = l.length ∧ b = a := by
  rcases Nat.lt_or_ge k l.length with hk | hk
  · rw [List.getElem?_append_left hk]
    exact ⟨.inl, fun h => h.resolve_right fun h => by omega⟩
  · rw [List.getElem?_append_right hk, List.getElem?_eq_none hk, List.getElem?_singleton]
    constructor
    · intro h
      split at h
      · exact .inr ⟨by omega, (Option.some.inj h).symm⟩
      · cases h
    · rintro (h | ⟨rfl, rfl⟩)
      · cases h
      · simp

theorem find?_positions_push (h : x.positions.find? r.name = none) (name : String) :
    (x.push r).positions.find? name =
      if name = r.name then some x.registers.length else x.positions.find? name := by
  unfold push
  rw [Table.insertIfNew]
  split
  · rename_i hn
    rw [hn, Table.find?_alter_self, h, Option.getD_none]
  · rename_i hn
    exact Table.find?_alter_of_ne _ _ fun he => hn (Std.LawfulEqOrd.eq_of_compare he)

theorem InStep.push (h : x.InStep) (hnew : ∀ r' ∈ x.registers, r'.name ≠ r.name) :
    (x.push r).InStep := by
  intro name k
  rw [find?_positions_push ((h.positions_eq_none_iff r.name).2 hnew)]
  change _ ↔ ∃ r', (x.registers ++ [r])[k]? = some r' ∧ r'.name = name
  simp only [getElem?_concat_eq_some_iff]
  split
  · rename_i hn
    constructor
    · rintro ⟨⟩
      exact ⟨r, .inr ⟨rfl, rfl⟩, hn.symm⟩
    · rintro ⟨r', hr' | ⟨rfl, -⟩, hname⟩
      · exact absurd (hname.trans hn) (hnew r' (List.mem_of_getElem? hr'))
      · rfl
  · rename_i hn
    rw [h]
    constructor
    · rintro ⟨r', hr', hname⟩
      exact ⟨r', .inl hr', hname⟩
    · rintro ⟨r', hr' | ⟨-, rfl⟩, hname⟩
      · exact ⟨r', hr', hname⟩
      · exact absurd hname.symm hn

/-- A position that is looked up is one of the registers, and the register there is the one that a
search for the name finds. -/
theorem InStep.lookUp_eq (h : x.InStep) (name : String) :
    x.lookUp name = (x.plain.find? name).map some := by
  unfold lookUp
  cases hk : x.positions.find? name with
  | none =>
    rw [RegisterTable.find?_eq_none_iff.2 ((h.positions_eq_none_iff name).1 hk)]
    rfl
  | some k =>
    obtain ⟨r, hr, hn⟩ := (h name k).1 hk
    cases hfind : x.plain.find? name with
    | none => exact absurd hn (RegisterTable.find?_eq_none_iff.1 hfind r (List.mem_of_getElem? hr))
    | some r' =>
      -- both registers have the name, which has one position
      obtain ⟨k', hk'⟩ := List.getElem?_of_mem (RegisterTable.mem_of_find? hfind)
      have hsame := (h name k').2 ⟨r', hk', RegisterTable.name_of_find? hfind⟩
      rw [hk] at hsame
      cases hsame
      exact congrArg some hk'

/-! ## One call -/

theorem run_refuseSecond (l : List Register) (x : IndexedRegisters) :
    (l.forM refuseSecond).run x =
      match l.find? Register.isStackPointer with
      | some r => ⟨.error (.stackPointerTaken r.name), x, []⟩
      | none => ⟨.ok (), x, []⟩ := by
  induction l with
  | nil => rfl
  | cons r l ih =>
    change (refuseSecond r >>= fun _ => l.forM refuseSecond).run x = _
    unfold refuseSecond
    by_cases hr : r.isStackPointer = true
    · rw [if_pos hr, run_bind_failed (run_fail _ x), List.find?_cons, hr]
    · rw [if_neg hr, run_bind_quiet (run_pure () x), List.find?_cons, Bool.eq_false_iff.2 hr]
      exact ih

/-- To add a register is to try it on the plain table, and to keep the index. -/
theorem InStep.run_insert (h : x.InStep) (r : Register) :
    (insert r).run x =
      match x.plain.add r with
      | .ok _ => ⟨.ok (some r), x.push r, []⟩
      | .error e => ⟨.error e, x, []⟩ := by
  have hcontains : x.positions.contains r.name = (x.plain.find? r.name).isSome := by
    rw [Table.contains, Bool.eq_iff_iff, Option.isSome_iff_ne_none, Option.isSome_iff_ne_none,
      ne_eq, ne_eq, h.positions_eq_none_iff, RegisterTable.find?_eq_none_iff]
    rfl
  unfold insert RegisterTable.add
  by_cases hw : r.width = 0
  · rw [if_pos hw, if_pos hw]
    rfl
  · rw [if_neg hw, if_neg hw]
    dsimp only
    rw [run_bind_quiet (run_get x), hcontains]
    by_cases hd : (x.plain.find? r.name).isSome = true
    · rw [if_pos hd, if_pos hd]
      rfl
    · rw [if_neg hd, if_neg hd]
      change (⟨.ok (x.registers ++ [r]).getLast?, x.push r, []⟩ : Outcome _ _) = _
      rw [List.getLast?_concat]

/-- A call does what it does to the plain table, and keeps the index. -/
theorem InStep.run_call (h : x.InStep) (c : Call) :
    (call c).run x =
      match c.attempt x.plain with
      | .ok _ => ⟨.ok (some c.register), x.push c.register, []⟩
      | .error e => ⟨.error e, x, []⟩ := by
  cases c with
  | declare name width => exact h.run_insert ⟨name, width, false⟩
  | declareStackPointer name width =>
    change (insertStackPointer ⟨name, width, true⟩).run x =
      match x.plain.declareStackPointer name width with
      | .ok _ => ⟨.ok (some ⟨name, width, true⟩), x.push ⟨name, width, true⟩, []⟩
      | .error e => ⟨.error e, x, []⟩
    have hloop := run_refuseSecond x.registers x
    unfold insertStackPointer RegisterTable.declareStackPointer RegisterTable.stackPointer?
    rw [run_bind_quiet (run_get x)]
    cases hs : x.registers.find? Register.isStackPointer with
    | some r =>
      rw [hs] at hloop
      rw [run_bind_failed hloop, show x.plain.registers.find? (·.isStackPointer) = some r from hs]
    | none =>
      rw [hs] at hloop
      rw [run_bind_quiet hloop, show x.plain.registers.find? (·.isStackPointer) = none from hs]
      exact h.run_insert ⟨name, width, true⟩

theorem InStep.after (h : x.InStep) (c : Call) :
    (x.after c).InStep ∧ (x.after c).plain = x.plain.after c := by
  have htried := RegisterTable.tried x.plain c
  unfold IndexedRegisters.after RegisterTable.after
  rw [h.run_call]
  generalize c.attempt x.plain = y at htried
  cases htried with
  | added hfree hwidth hnew => exact ⟨h.push hnew, rfl⟩
  | _ => exact ⟨h, rfl⟩

/-! ## Runs -/

theorem InStep.afterAll (h : x.InStep) (cs : List Call) :
    (x.afterAll cs).InStep ∧ (x.afterAll cs).plain = x.plain.afterAll cs := by
  induction cs generalizing x with
  | nil => exact ⟨h, rfl⟩
  | cons c cs ih =>
    obtain ⟨hc, hplain⟩ := h.after c
    obtain ⟨hcs, hrun⟩ := ih hc
    refine ⟨hcs, hrun.trans ?_⟩
    rw [hplain]
    rfl

/-- Tables with and without an index that hold some registers: what they answer, what they refuse,
and what becomes of them. -/
structure Consistent (x : IndexedRegisters) (t : RegisterTable) (l : List Register) : Prop where
  registers : t.registers = l
  names_nodup : (l.map Register.name).Nodup
  widths_ne_zero : ∀ r ∈ l, r.width ≠ 0
  /-- There is one stack pointer at most. -/
  stackPointer_unique : l.countP Register.isStackPointer ≤ 1
  find_iff : ∀ name r, t.find? name = some r ↔ r ∈ l ∧ r.name = name
  absent_iff : ∀ name, t.find? name = none ↔ ∀ r ∈ l, r.name ≠ name
  size : t.size = l.length
  declare_fails_iff : ∀ name width, (∃ e, t.declare name width = .error e) ↔
    width = 0 ∨ ∃ r ∈ l, r.name = name
  declareStackPointer_fails_iff : ∀ name width, (∃ e, t.declareStackPointer name width = .error e) ↔
    (∃ r ∈ l, r.isStackPointer = true) ∨ width = 0 ∨ ∃ r ∈ l, r.name = name
  /-- The two tables have the same registers. -/
  plain : x.plain = t
  /-- A position is found for the names of registers, and the register is found there. -/
  lookUp : ∀ name, x.lookUp name = (t.find? name).map some
  /-- A call that fails leaves registers and positions as they were. -/
  failed : ∀ c e, c.attempt t = .error e → (call c).run x = ⟨.error e, x, []⟩
  /-- A call that succeeds answers with its register, which comes last in both tables. -/
  succeeded : ∀ c u, c.attempt t = .ok u →
    u.registers = l ++ [c.register] ∧ ((call c).run x).result = .ok (some c.register) ∧
      ((call c).run x).state.plain = u

/-- Whatever calls are made, the table with an index and the one without hold the registers of the
calls that succeeded, in their order, and everything that they say of themselves agrees. -/
theorem consistent_after_calls (cs : List Call) :
    Consistent (afterAll {} cs) (RegisterTable.afterAll {} cs) (RegisterTable.accepted {} cs) := by
  obtain ⟨hstep, hplain⟩ := InStep.empty.afterAll cs
  have hregisters : (RegisterTable.afterAll {} cs).registers = RegisterTable.accepted {} cs :=
    RegisterTable.registers_afterAll {} cs
  have hwf := RegisterTable.WF.empty.afterAll cs
  rw [← hregisters]
  change (afterAll {} cs).plain = RegisterTable.afterAll {} cs at hplain
  generalize RegisterTable.afterAll {} cs = t at *
  generalize afterAll {} cs = x at *
  refine {
    registers := rfl
    names_nodup := hwf.names_nodup
    widths_ne_zero := hwf.widths_ne_zero
    stackPointer_unique := hwf.stackPointer_unique
    find_iff := fun name r => RegisterTable.find?_eq_some_iff hwf.names_nodup
    absent_iff := fun name => RegisterTable.find?_eq_none_iff
    size := rfl
    declare_fails_iff := RegisterTable.declare_eq_error_iff t
    declareStackPointer_fails_iff := RegisterTable.declareStackPointer_eq_error_iff t
    plain := hplain
    lookUp := fun name => hplain ▸ hstep.lookUp_eq name
    failed := fun c e he => ?_
    succeeded := fun c u hu => ?_ }
  · rw [hstep.run_call, hplain, he]
  · have htried := RegisterTable.tried t c
    rw [hu] at htried
    cases htried with
    | added hfree hwidth hnew =>
      rw [hstep.run_call, hplain, hu]
      refine ⟨rfl, rfl, ?_⟩
      rw [← hplain]
      rfl

end IndexedRegisters

end FlowAutomaton
