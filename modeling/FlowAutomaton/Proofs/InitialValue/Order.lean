/-
The order of the steps that make a configuration does not matter. Steps that declare the same
registers and give the same last initializers make configurations that differ in the order of
their registers only. That order is seen by nobody: what is written and what is reported, what the
configuration says of itself, and the automaton that starts from it are the same.

Registers are looked up by name, and no name is declared twice; so registers in another order give
the same answers, and the value has them in the order of their names.
-/
import FlowAutomaton.Graph.Basic
import FlowAutomaton.Proofs.InitialValue.Outcome

namespace FlowAutomaton

/-! ## Configurations up to the order of registers -/

/-- Configurations that differ in the order of their registers only. -/
structure Configuration.Same (c c' : Configuration) : Prop where
  addressSize : c.addressSize = c'.addressSize
  operandSize : c.operandSize = c'.operandSize
  loglevel : c.loglevel = c'.loglevel
  registers : ∀ name, c.registers.find? name = c'.registers.find? name
  contents : c.contents = c'.contents
  memory : ∀ region, c.memory region = c'.memory region

/-- Registers in another order are found by the same names. -/
theorem RegisterTable.find?_congr {t u : RegisterTable}
    (ht : (t.registers.map Register.name).Nodup) (hu : (u.registers.map Register.name).Nodup)
    (h : ∀ r, r ∈ t.registers ↔ r ∈ u.registers) (name : String) :
    t.find? name = u.find? name := by
  refine Option.ext fun r => ⟨fun hr => ?_, fun hr => ?_⟩
  · rw [← name_of_find? hr]
    exact find?_of_mem hu ((h r).1 (mem_of_find? hr))
  · rw [← name_of_find? hr]
    exact find?_of_mem ht ((h r).2 (mem_of_find? hr))

namespace InitialValue

open FlowAutomaton.Configuration (Step configured accepted lastContent lastMemory)

variable {c c' : Configuration}

theorem declared_congr {t u : RegisterTable} (ht : (t.registers.map Register.name).Nodup)
    (hu : (u.registers.map Register.name).Nodup) (h : ∀ name, t.find? name = u.find? name) :
    declared t = declared u := by
  -- the cells are kept by name, whatever the order in which they were added
  have hregisters : (declared t).registers = (declared u).registers :=
    Table.eq_of_find? fun name => by rw [find?_declared ht, find?_declared hu, h]
  have hmemory : (declared t).memory = (declared u).memory := by
    rw [memory_declared, memory_declared]
  calc declared t = ⟨(declared t).registers, (declared t).memory⟩ := rfl
    _ = ⟨(declared u).registers, (declared u).memory⟩ := by rw [hregisters, hmemory]
    _ = declared u := rfl

theorem writeContents_congr (h : c.Same c') : writeContents c = writeContents c' := by
  have hregister : writeRegister c.registers = writeRegister c'.registers := by
    funext e
    rw [writeRegister, writeRegister, h.registers]
  have hregion (region : Region) : writeRegion c region = writeRegion c' region := by
    rw [writeRegion, writeRegion, h.memory, h.addressSize]
  rw [writeContents, writeContents, h.contents, hregister, hregion, hregion, hregion]

/-- Initial values are made in the same way, and the same is reported. -/
theorem ofConfiguration_congr {σ : Type} (hc : c.WF) (hc' : c'.WF) (h : c.Same c') :
    (ofConfiguration c : Action σ Value) = ofConfiguration c' := by
  rw [ofConfiguration, ofConfiguration, writeContents_congr h,
    declared_congr hc.names_nodup hc'.names_nodup h.registers]

theorem tables_congr (h : c.Same c') :
    c.globalMemory = c'.globalMemory ∧ c.stackMemory = c'.stackMemory ∧
      c.heapMemory = c'.heapMemory :=
  ⟨Except.ok.inj (h.memory .global), Except.ok.inj (h.memory .stack),
    Except.ok.inj (h.memory .heap)⟩

theorem text_congr (h : c.Same c') : c.text = c'.text := by
  obtain ⟨hg, hs, hh⟩ := tables_congr h
  unfold Configuration.text
  rw [h.addressSize, h.operandSize, h.loglevel, h.contents, hg, hs, hh]

theorem start_congr (hc : c.WF) (hc' : c'.WF) (h : c.Same c') (ip : Address) :
    Graph.start ip c = Graph.start ip c' := by
  rw [Graph.start, Graph.start, ofConfiguration_congr hc hc' h, h.addressSize, h.operandSize]

/-! ## Steps in another order -/

/-- Steps that all succeed, none of which sets a parameter. -/
structure Succeed (ss : List Step) : Prop where
  accepted : accepted {} ss = ss
  no_parameter : ∀ s ∈ ss, ∀ name value, s ≠ .parameter name value

/-- Steps that declare the same registers and give the same last initializers. -/
structure SameSettings (ss ts : List Step) : Prop where
  registers : ∀ r, r ∈ Configuration.declared ss ↔ r ∈ Configuration.declared ts
  contents : ∀ name, lastContent ss name = lastContent ts name
  memory : ∀ region extent, lastMemory ss region extent = lastMemory ts region extent

theorem memory_congr (h : ∀ region extent, c.memory? region extent = c'.memory? region extent)
    (region : Region) : c.memory region = c'.memory region := by
  cases region with
  | global => exact congrArg Except.ok (Table.eq_of_find? fun k => h .global k)
  | stack => exact congrArg Except.ok (Table.eq_of_find? fun k => h .stack k)
  | heap => exact congrArg Except.ok (Table.eq_of_find? fun k => h .heap k)
  | unknown code unnamed => rfl

theorem same_configured {ss ts : List Step} (hs : Succeed ss) (ht : Succeed ts)
    (h : SameSettings ss ts) : (configured ss).Same (configured ts) := by
  obtain ⟨holds, wf⟩ := Configuration.holds_configured ss
  obtain ⟨holds', wf'⟩ := Configuration.holds_configured ts
  rw [hs.accepted] at holds
  rw [ht.accepted] at holds'
  obtain ⟨ha, ho, hl⟩ := Configuration.parameters_afterAll {} hs.no_parameter
  obtain ⟨ha', ho', hl'⟩ := Configuration.parameters_afterAll {} ht.no_parameter
  refine ⟨ha.trans ha'.symm, ho.trans ho'.symm, hl.trans hl'.symm, fun name => ?_, ?_, ?_⟩
  · refine RegisterTable.find?_congr wf.names_nodup wf'.names_nodup (fun r => ?_) name
    rw [holds.registers, holds'.registers]
    exact h.registers r
  · refine Table.eq_of_find? fun name => ?_
    rw [holds.contents, holds'.contents, h.contents]
  · refine memory_congr fun region extent => ?_
    rw [holds.memory, holds'.memory, h.memory]

/-- Configurations that are made in another order have the same initial value or the same failure
and report the same, say the same of themselves, and start the same automaton. -/
theorem order_irrelevant {ss ts : List Step} (hs : Succeed ss) (ht : Succeed ts)
    (h : SameSettings ss ts) :
    (∀ (σ : Type) (s : σ), (ofConfiguration (configured ss)).run s =
      (ofConfiguration (configured ts)).run s) ∧
    (configured ss).text = (configured ts).text ∧
    ∀ ip g, (Graph.start ip (configured ss)).run g = (Graph.start ip (configured ts)).run g := by
  have wf := (Configuration.holds_configured ss).2
  have wf' := (Configuration.holds_configured ts).2
  have same := same_configured hs ht h
  refine ⟨fun σ s => ?_, text_congr same, fun ip g => ?_⟩
  · rw [ofConfiguration_congr wf wf' same]
  · rw [start_congr wf wf' same]

/-- A stack pointer and another register, each with a content, and a stretch of the stack. -/
def inOrder : List Step :=
  [.declare "eax" 32, .declareStackPointer "esp" 16, .setRegister "eax" ⟨.exact 1, none⟩,
    .setRegister "esp" ⟨.exact 256, none⟩, .setMemory .stack ⟨4, 2⟩ ⟨.exact 7, none⟩]

/-- The same in another order, with contents that are replaced later. -/
def outOfOrder : List Step :=
  [.setMemory .stack ⟨4, 2⟩ ⟨.bytes "ff", none⟩, .declareStackPointer "esp" 16,
    .setRegister "esp" ⟨.exact 256, none⟩, .declare "eax" 32,
    .setRegister "eax" ⟨.exact 4294967296, none⟩, .setMemory .stack ⟨4, 2⟩ ⟨.exact 7, none⟩,
    .setRegister "eax" ⟨.exact 1, none⟩]

theorem sameSettings_outOfOrder : SameSettings inOrder outOfOrder where
  registers r := by
    have h : (Configuration.declared inOrder).Perm (Configuration.declared outOfOrder) := by
      decide
    exact h.mem_iff
  contents name := by
    by_cases ha : name = "eax"
    · subst ha
      rfl
    · by_cases hs : name = "esp"
      · subst hs
        rfl
      · simp [lastContent, inOrder, outOfOrder, List.findSome?_cons, Step.content?, ha, hs]
  memory region extent := by
    by_cases h : region = .stack ∧ extent = ⟨4, 2⟩
    · obtain ⟨rfl, rfl⟩ := h
      rfl
    · simp [lastMemory, inOrder, outOfOrder, List.findSome?_cons, Step.memory?, h]

theorem order_irrelevant_outOfOrder :
    Succeed inOrder ∧ Succeed outOfOrder ∧ SameSettings inOrder outOfOrder ∧
      (configured inOrder).registers ≠ (configured outOfOrder).registers ∧
      (value (configured inOrder)).isOk ∧
      value (configured inOrder) = value (configured outOfOrder) ∧
      (configured inOrder).text = (configured outOfOrder).text ∧
      ∀ ip g, (Graph.start ip (configured inOrder)).run g =
        (Graph.start ip (configured outOfOrder)).run g := by
  have hs : Succeed inOrder := ⟨rfl, by simp [inOrder]⟩
  have ht : Succeed outOfOrder := ⟨rfl, by simp [outOfOrder]⟩
  obtain ⟨hvalue, htext, hstart⟩ := order_irrelevant hs ht sameSettings_outOfOrder
  refine ⟨hs, ht, sameSettings_outOfOrder, by decide, rfl, ?_, htext, hstart⟩
  exact congrArg Outcome.result (hvalue Unit ())

end InitialValue

end FlowAutomaton
