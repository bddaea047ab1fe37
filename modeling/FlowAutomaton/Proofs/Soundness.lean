/-
What is guaranteed of data that are made step by step. An address is in one of the three regions and
its offset is not negative, a statement is of one of the seven kinds, a cell of a register has a
width and holds no bytes, and a cell of memory repeats its content as often as its location says.

Every way of writing to a value keeps that, so initial values are sound (`sound_value`), and an
automaton that is made from sound states is sound after every run (`Sound.afterCalls`).
-/
import FlowAutomaton.Proofs.Graph.Failure
import FlowAutomaton.Proofs.InitialValue.Failure

namespace FlowAutomaton

/-! ## Sound data -/

/-- An address in one of the three regions, of which the offset is not negative. -/
structure Address.Sound (a : Address) : Prop where
  region_known : a.region ∈ [Region.global, .stack, .heap]
  offset_nonneg : 0 ≤ a.offset

/-- A statement of one of the seven kinds. -/
def Statement.Sound (s : Statement) : Prop :=
  s.kind ∈ [Statement.Kind.set, .jump, .branch, .call, .ret, .nop, .directive]

/-- A cell of a register that has a width, with no bytes in it. -/
structure RegisterCell.Sound (k : RegisterCell) : Prop where
  width_ne_zero : k.width ≠ 0
  no_bytes : k.content.any Content.isBytes = false

/-- A value with sound cells at sound addresses. -/
structure Value.Sound (v : Value) : Prop where
  registers : ∀ e ∈ v.registers.entries, e.2.Sound
  addresses : ∀ e ∈ v.memory.entries, e.1.address.Sound
  counts : ∀ e ∈ v.memory.entries, e.2.count = e.1.count

/-- A state of which the address, the value and the statements are sound. -/
structure State.Sound (s : State) : Prop where
  ip : s.ip.Sound
  value : s.value.Sound
  statements : ∀ t ∈ s.statements, t.Sound

/-- An automaton with sound states. -/
def Graph.Sound (g : Graph) : Prop := ∀ id s, g.state? id = some s → s.Sound

instance (a : Address) : Decidable a.Sound :=
  decidable_of_iff (a.region ∈ [Region.global, .stack, .heap] ∧ 0 ≤ a.offset)
    ⟨fun ⟨hr, ho⟩ => ⟨hr, ho⟩, fun ⟨hr, ho⟩ => ⟨hr, ho⟩⟩

instance (s : Statement) : Decidable s.Sound :=
  inferInstanceAs
    (Decidable (s.kind ∈ [Statement.Kind.set, .jump, .branch, .call, .ret, .nop, .directive]))

instance (k : RegisterCell) : Decidable k.Sound :=
  decidable_of_iff (k.width ≠ 0 ∧ k.content.any Content.isBytes = false)
    ⟨fun ⟨hw, hb⟩ => ⟨hw, hb⟩, fun ⟨hw, hb⟩ => ⟨hw, hb⟩⟩

instance (v : Value) : Decidable v.Sound :=
  decidable_of_iff ((∀ e ∈ v.registers.entries, e.2.Sound) ∧
      (∀ e ∈ v.memory.entries, e.1.address.Sound) ∧ ∀ e ∈ v.memory.entries, e.2.count = e.1.count)
    ⟨fun ⟨hr, ha, hc⟩ => ⟨hr, ha, hc⟩, fun ⟨hr, ha, hc⟩ => ⟨hr, ha, hc⟩⟩

instance (s : State) : Decidable s.Sound :=
  decidable_of_iff (s.ip.Sound ∧ s.value.Sound ∧ ∀ t ∈ s.statements, t.Sound)
    ⟨fun ⟨hi, hv, hs⟩ => ⟨hi, hv, hs⟩, fun ⟨hi, hv, hs⟩ => ⟨hi, hv, hs⟩⟩

/-! ## Addresses and statements -/

/-- Addresses that are made in one of the three regions are sound. -/
theorem Address.sound_of_make {region : Region} {offset : Int} {size : UInt32} {a : Address}
    (hr : region ∈ [Region.global, .stack, .heap]) (h : Address.make region offset size = .ok a) :
    a.Sound := by
  unfold Address.make at h
  split at h
  · cases h
  · rename_i ho
    cases h
    exact ⟨hr, Int.not_lt.1 ho⟩

/-- The sound statements are those that can be written. -/
theorem Statement.sound_iff (s : Statement) : s.Sound ↔ ¬s.IsUnnamed := by
  obtain ⟨kind, first, second⟩ := s
  cases kind with
  | unknown code unnamed =>
    refine iff_of_false (fun h => ?_) (not_not_intro ⟨code, unnamed, rfl⟩)
    simp [Sound] at h
  | _ =>
    refine iff_of_true (by simp [Sound]) ?_
    rintro ⟨code, unnamed, hk⟩
    cases hk

/-- Sound automata can be dumped with whatever there is to say of them. -/
theorem Graph.Sound.dump {g : Graph} (h : g.Sound) (loglevel : UInt32) :
    ∃ text, g.dump loglevel = .ok text := by
  cases hd : g.dump loglevel with
  | ok text => exact ⟨text, rfl⟩
  | error e =>
    obtain ⟨-, id, s, hs, t, ht, hunnamed⟩ := (Graph.dump_eq_error_iff loglevel).1 ⟨e, hd⟩
    exact absurd hunnamed (t.sound_iff.1 ((h id s hs).statements t ht))

/-! ## Values -/

namespace Value.Sound

variable {v : Value}

theorem empty : Value.Sound {} :=
  ⟨fun _ h => absurd h List.not_mem_nil, fun _ h => absurd h List.not_mem_nil,
    fun _ h => absurd h List.not_mem_nil⟩

theorem putRegister (h : v.Sound) (name : String) {k : RegisterCell} (hk : k.Sound) :
    Value.Sound { v with registers := v.registers.insert name k } := by
  refine ⟨fun e he => ?_, h.addresses, h.counts⟩
  rcases Table.mem_entries_insert he with he | rfl | ⟨-, -, he⟩
  · exact h.registers e he
  · exact hk
  · rw [he]
    exact hk

theorem addRegister (h : v.Sound) {r : Register} (hr : r.width ≠ 0) : (v.addRegister r).Sound :=
  h.putRegister r.name ⟨hr, rfl⟩

/-- A register that is set gets numbers only, and keeps its width. -/
theorem setRegister (h : v.Sound) {name : String} {region : Region} {i : Initializer} {w : Value}
    (hw : v.setRegister name region i = .ok w) : w.Sound := by
  unfold Value.setRegister at hw
  split at hw
  · cases hw
  · rename_i k hk
    split at hw
    · cases hw
    · rename_i hbytes
      cases hw
      exact h.putRegister name ⟨(h.registers _ (Table.mem_entries_iff.2 hk)).width_ne_zero,
        Bool.eq_false_iff.2 hbytes⟩

/-- A cell that is written repeats its content as often as its location says. -/
theorem setMemory (h : v.Sound) {l : Location} (hl : l.address.Sound) (i : Initializer) :
    (v.setMemory l i).Sound := by
  refine ⟨h.registers, fun e he => ?_, fun e he => ?_⟩
  · rcases Table.mem_entries_insert he with he | rfl | ⟨⟨old, hold⟩, -, -⟩
    · exact h.addresses e he
    · exact hl
    · exact h.addresses (e.1, old) hold
  · rcases Table.mem_entries_insert he with he | rfl | ⟨-, hk, he⟩
    · exact h.counts e he
    · rfl
    · rw [he]
      exact (Location.compare_eq_iff.1 hk).count

end Value.Sound

/-! ## Initial values -/

namespace Configuration

/-- No register of a configuration has width zero. -/
def HasWidths (c : Configuration) : Prop := ∀ r ∈ c.registers.registers, r.width ≠ 0

theorem width_of_call {c c' : Configuration} (call : RegisterTable.Call)
    (h : ((call.attempt c.registers).map fun t => { c with registers := t }) = .ok c') :
    call.register.width ≠ 0 := by
  have htried := RegisterTable.tried c.registers call
  generalize call.attempt c.registers = x at htried h
  cases htried with
  | added hfree hwidth hnew => exact hwidth
  | _ => cases h

theorem width_of_result {c : Configuration} {s : Step} {r : Register} (hs : s.register? = some r)
    (h : (s.action.run c).result = .ok ()) : r.width ≠ 0 := by
  cases s with
  | declare name width =>
    cases hs
    exact width_of_call (.declare name width) (run_tryModify_of_ok h)
  | declareStackPointer name width =>
    cases hs
    exact width_of_call (.declareStackPointer name width) (run_tryModify_of_ok h)
  | _ => cases hs

theorem HasWidths.after {c : Configuration} (h : c.HasWidths) (s : Step) :
    (c.after s).HasWidths := by
  cases hr : (s.action.run c).result with
  | error e =>
    rw [after_of_error hr]
    exact h
  | ok u =>
    have keep {c' : Configuration} (hc : c'.registers = c.registers) : c'.HasWidths := by
      unfold HasWidths
      rw [hc]
      exact h
    have hwidth {r : Register} (hs : s.register? = some r) : r.width ≠ 0 := width_of_result hs hr
    have heffect := effect_after hr
    generalize c.after s = c' at heffect
    cases heffect with
    | ignored hname value => exact h
    | @parameter name value p n hname hvalue => exact keep (registers_assign c p n).1
    | register hs hnew =>
      intro r' hr'
      rcases List.mem_append.1 hr' with hr' | hr'
      · exact h r' hr'
      · rw [List.mem_singleton.1 hr']
        exact hwidth hs
    | content hr' i => exact h
    | memory hm => exact keep (registers_setMemory hm).1

/-- No step declares a register without a width. -/
theorem hasWidths_configured (ss : List Step) : (configured ss).HasWidths := by
  refine List.foldlRecOn ss after (motive := HasWidths) ?_ fun c hc s _ => hc.after s
  exact fun r hr => absurd hr List.not_mem_nil

end Configuration

namespace InitialValue

open FlowAutomaton.Configuration (configured hasWidths_configured holds_configured)

theorem sound_declared {t : RegisterTable} (h : ∀ r ∈ t.registers, r.width ≠ 0) :
    (declared t).Sound :=
  List.foldlRecOn t.registers Value.addRegister (motive := Value.Sound) .empty
    fun _ hv r hr => hv.addRegister (h r hr)

theorem sound_putRegister {t : RegisterTable} (h : ∀ r ∈ t.registers, r.width ≠ 0) {v : Value}
    (hv : v.Sound) {e : String × Initializer} (he : registerVerdict t e = .ok ()) :
    (putRegister t v e).Sound := by
  rw [registerVerdict] at he
  rw [putRegister]
  cases hr : t.find? e.1 with
  | none => exact hv
  | some r =>
    simp only [hr] at he
    have hbytes : e.2.content.isBytes = false := by
      rw [Bool.eq_false_iff]
      intro hb
      rw [checkRegister_of_bytes hb] at he
      cases he
    exact hv.putRegister e.1 ⟨h r (RegisterTable.mem_of_find? hr), hbytes⟩

theorem sound_foldl_putMemory (region : Region) (hr : region ∈ [Region.global, .stack, .heap])
    (size : UInt32) {l : List (Extent × Initializer)} (h : l.forM offsetVerdict = .ok ()) {v : Value}
    (hv : v.Sound) : (l.foldl (putMemory region size) v).Sound := by
  refine List.foldlRecOn l _ (motive := Value.Sound) hv fun v hv e he => ?_
  have hok : offsetVerdict e = .ok () := forM_eq_ok_iff.1 h e he
  rw [offsetVerdict] at hok
  split at hok
  · cases hok
  · rename_i ho
    exact hv.setMemory (l := (located region size e).1) ⟨hr, Int.not_lt.1 ho⟩ e.2

/-- The initial value of a configuration that was made step by step is sound, if there is one. -/
theorem sound_value {ss : List Configuration.Step} {v : Value}
    (h : value (configured ss) = .ok v) : v.Sound := by
  have hwidths := hasWidths_configured ss
  rw [value_eq (holds_configured ss).2] at h
  cases hv : verdict (configured ss) with
  | error e =>
    rw [hv] at h
    cases h
  | ok u =>
    rw [hv] at h
    cases h
    -- each check that was made answers for the contents that it is made of
    obtain ⟨hregisters, hv⟩ := seq_eq_ok_iff.1 hv
    obtain ⟨hglobal, hv⟩ := seq_eq_ok_iff.1 hv
    obtain ⟨hstack, hheap⟩ := seq_eq_ok_iff.1 hv
    have hwritten := List.foldlRecOn (configured ss).contents.entries
      (putRegister (configured ss).registers) (motive := Value.Sound) (sound_declared hwidths)
      fun _ hv e he => sound_putRegister hwidths hv (forM_eq_ok_iff.1 hregisters e he)
    have hglobal := sound_foldl_putMemory .global (by simp) (configured ss).addressSize hglobal hwritten
    have hstack := sound_foldl_putMemory .stack (by simp) (configured ss).addressSize hstack hglobal
    exact sound_foldl_putMemory .heap (by simp) (configured ss).addressSize hheap hstack

end InitialValue

/-! ## Runs -/

/-- A change to something sound. -/
def State.Change.Sound : State.Change → Prop
  | .ip a => a.Sound
  | .value v => v.Sound
  | .statements l => ∀ t ∈ l, t.Sound
  | .push t => t.Sound
  | _ => True

/-- Setters with sound data keep a state sound. -/
theorem State.Sound.change {s : State} (h : s.Sound) {c : State.Change} (hc : c.Sound) :
    (s.change c).Sound := by
  cases c with
  | ip a => exact ⟨hc, h.value, h.statements⟩
  | value v => exact ⟨h.ip, hc, h.statements⟩
  | statements l => exact ⟨h.ip, h.value, hc⟩
  | push t =>
    refine ⟨h.ip, h.value, fun u hu => ?_⟩
    rcases List.mem_append.1 hu with hu | hu
    · exact h.statements u hu
    · rw [List.mem_singleton.1 hu]
      exact hc
  | _ => exact ⟨h.ip, h.value, h.statements⟩

/-- An update with sound data; a configuration is one that was made step by step. -/
def Graph.Update.Sound : Graph.Update → Prop
  | .start ip c => ip.Sound ∧ ∃ ss, c = Configuration.configured ss
  | .add s => s.Sound
  | .duplicate s => s.Sound
  | .change _ c => c.Sound
  | _ => True

/-- A plain graph with sound states. -/
def Digraph.Sound (d : Digraph) : Prop := ∀ id s, d.states id = some s → s.Sound

namespace Digraph.Sound

variable {d : Digraph}

theorem insert (h : d.Sound) {s : State} (hs : s.Sound) : (d.insert s).Sound := by
  intro id t ht
  rw [states_insert] at ht
  split at ht
  · cases ht
    exact hs
  · exact h id t ht

theorem remove (h : d.Sound) (id : StateId) : (d.remove id).Sound := by
  intro k t ht
  rw [states_remove] at ht
  split at ht
  · cases ht
  · exact h k t ht

theorem change (h : d.Sound) (id : StateId) {c : State.Change} (hc : c.Sound) :
    (d.change id c).Sound := by
  intro k t ht
  rw [states_change] at ht
  split at ht
  · obtain ⟨s, hs, rfl⟩ := Option.map_eq_some_iff.1 ht
    exact (h id s hs).change hc
  · exact h k t ht

/-- Updates with sound data keep a plain graph sound. -/
theorem after (h : d.Sound) {u : Graph.Update} (hu : u.Sound) : (d.after u).Sound := by
  cases u with
  | start ip c =>
    obtain ⟨hip, ss, rfl⟩ := hu
    rw [Digraph.after, Digraph.start]
    split
    · cases hv : InitialValue.value (Configuration.configured ss) with
      | error e => exact h
      | ok value =>
        exact h.insert (s := Graph.rootState ip _ value)
          ⟨hip, InitialValue.sound_value hv, fun t ht => absurd ht List.not_mem_nil⟩
    · exact h
  | add s =>
    rw [Digraph.after, Digraph.add]
    split
    · exact h
    · exact h.insert hu
  | remove s => exact h.remove s.id
  | link src dst =>
    rw [Digraph.after]
    split <;> exact h
  | unlink src dst => exact h
  | duplicate s =>
    rw [Digraph.after, Digraph.duplicate]
    split
    · exact h
    · exact h.insert (s := d.copyOf s) ⟨hu.ip, hu.value, hu.statements⟩
  | change id c => exact h.change id hu
  | issue => exact h
  | observe id => exact h
  | reset last => exact h

end Digraph.Sound

namespace Graph

/-- An automaton is as sound as its plain graph. -/
theorem Represents.sound_iff {g : Graph} {d : Digraph} (h : Represents g d) :
    g.Sound ↔ d.Sound := by
  refine forall_congr' fun id => ?_
  rw [h.states]

theorem Sound.afterCall {g : Graph} (hg : g.Sound) (hw : g.WF) {c : Call}
    (hc : ∀ u, c = .update u → u.Sound) : ((c.action.run g).state).Sound := by
  have hrep := hw.represents.afterCall c
  rw [hrep.sound_iff]
  cases c with
  | update u => exact Digraph.Sound.after (d := g.view) hg (hc u rfl)
  | query q => exact hg

/-- Calls that are made with sound data leave a sound automaton sound. -/
theorem Sound.afterCalls {g : Graph} (hg : g.Sound) (hw : g.WF) {cs : List Call}
    (hcs : ∀ u, Call.update u ∈ cs → u.Sound) : (g.afterCalls cs).Sound := by
  induction cs generalizing g with
  | nil => exact hg
  | cons c cs ih =>
    refine ih (hg.afterCall hw ?_) (hw.represents.afterCall c).wf ?_
    · rintro u rfl
      exact hcs u List.mem_cons_self
    · intro u hu
      exact hcs u (List.mem_cons_of_mem c hu)

theorem Sound.empty : Graph.Sound {} := by
  rintro id s ⟨⟩

end Graph

end FlowAutomaton
