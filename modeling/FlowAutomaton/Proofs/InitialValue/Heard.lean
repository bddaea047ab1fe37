/-
The initial value while diagnostics listen. To put a message together can fail where it names a
region, and a message is put together only where it is shown, so it might matter who listens. It
does not: the regions that are named on the way are those of the configuration, which have names,
and all memory is requested in the region of its address, which needs no warning.

`ofConfigurationTo` and `Graph.startTo` heed the diagnostics at each message; they are shown to be
`ofConfiguration` and `Graph.start`, as far as the diagnostics can tell.
-/
import FlowAutomaton.Graph.Basic
import FlowAutomaton.Proofs.Diagnostics.Heard
import FlowAutomaton.Proofs.InitialValue.Outcome

namespace FlowAutomaton

/-- Reports a log line, which is put together only where its tag is shown. -/
def Diagnostics.logLine {σ : Type} (d : Diagnostics) (tag : String) (text : Except Fault String) :
    Action σ Unit :=
  if tag ∈ d.tags then do
    let text ← Action.ofExcept text
    Action.log tag text
  else pure ()

namespace InitialValue

open FlowAutomaton.Action

/-! ## The initial value with the diagnostics at hand -/

section

variable (d : Diagnostics)

/-- Writes the initial content of a register. -/
def writeRegisterTo (t : RegisterTable) (e : String × Initializer) : Action Value Unit := do
  match t.find? e.1 with
  | none => Action.fail (.undeclaredRegister e.1)
  | some r =>
    Action.ofExcept (e.2.checkRegister r)
    d.logLine "cfa-init" ((pointedRegion r).name.map fun region =>
      "init register " ++ r.name ++ " in " ++ region ++ "\n")
    Action.tryModify (·.setRegister r.name (pointedRegion r) e.2)

/-- Writes the initial content of an extent of a region. -/
def writeMemoryTo (region : Region) (addressSize : UInt32) (e : Extent × Initializer) :
    Action Value Unit := do
  let address ← Action.ofExcept (Address.make region e.1.offset addressSize)
  d.logLine "cfa-init"
    (.ok ("init " ++ address.text ++ " (" ++ toString e.1.count ++ " times)\n"))
  Value.requestMemory d.warnings ⟨address, e.1.count⟩ region e.2

/-- Writes the initial contents of a region. -/
def writeRegionTo (c : Configuration) (region : Region) : Action Value Unit := do
  let table ← Action.ofExcept (c.memory region)
  table.entries.forM (writeMemoryTo d region c.addressSize)

/-- Writes all initial contents. -/
def writeContentsTo (c : Configuration) : Action Value Unit := do
  c.contents.entries.forM (writeRegisterTo d c.registers)
  writeRegionTo d c .global
  writeRegionTo d c .stack
  writeRegionTo d c .heap

/-- The initial value of a configuration. -/
def ofConfigurationTo {σ : Type} (c : Configuration) : Action σ Value :=
  Action.timed "CFA.init" (Action.build (writeContentsTo d c) (declared c.registers))

end

/-! ## It makes no difference who listens -/

variable {d : Diagnostics}

theorem logLine_alike {σ : Type} (tag text : String) :
    Alike (σ := σ) d (d.logLine tag (.ok text)) (log tag text) := by
  intro s
  unfold Diagnostics.logLine
  by_cases h : tag ∈ d.tags
  · rw [if_pos h]
    rfl
  · rw [if_neg h]
    simp [Outcome.heard, Diagnostics.hears, h]

/-- The region that a register points to has a name. -/
theorem name_pointedRegion (r : Register) : ∃ name, (pointedRegion r).name = .ok name := by
  unfold pointedRegion
  split
  · exact ⟨_, rfl⟩
  · exact ⟨_, rfl⟩

theorem writeRegisterTo_alike (t : RegisterTable) (e : String × Initializer) :
    Alike d (writeRegisterTo d t e) (writeRegister t e) := by
  unfold writeRegisterTo writeRegister
  cases t.find? e.1 with
  | none => exact .refl _
  | some r =>
    refine (Alike.refl _).bind fun _ => ?_
    obtain ⟨name, hname⟩ := name_pointedRegion r
    rw [hname]
    exact (logLine_alike _ _).bind fun _ => .refl _

theorem region_make {region : Region} {offset : Int} {size : UInt32} {a : Address}
    (h : Address.make region offset size = .ok a) : a.region = region := by
  unfold Address.make at h
  split at h
  · cases h
  · cases h
    rfl

theorem writeMemoryTo_alike (region : Region) (size : UInt32) (e : Extent × Initializer) :
    Alike d (writeMemoryTo d region size e) (writeMemory region size e) := by
  unfold writeMemoryTo writeMemory
  cases h : Address.make region e.1.offset size with
  | error f => exact .refl _
  | ok a =>
    have hr := region_make h
    subst hr
    have hto := requestMemory_own d.warnings ⟨a, e.1.count⟩ e.2
    have hown := requestMemory_own true ⟨a, e.1.count⟩ e.2
    show Alike d (d.logLine _ _ >>= fun _ => Value.requestMemory d.warnings _ a.region _)
      (log _ _ >>= fun _ => Value.requestMemory true _ a.region _)
    rw [hto, hown]
    exact (logLine_alike _ _).bind fun _ => .refl _

theorem writeRegionTo_alike (c : Configuration) (region : Region) :
    Alike d (writeRegionTo d c region) (writeRegion c region) :=
  (Alike.refl _).bind fun t =>
    Alike.forM t.entries fun e => writeMemoryTo_alike region c.addressSize e

theorem writeContentsTo_alike (c : Configuration) :
    Alike d (writeContentsTo d c) (writeContents c) :=
  (Alike.forM c.contents.entries fun e => writeRegisterTo_alike c.registers e).bind fun _ =>
    (writeRegionTo_alike c .global).bind fun _ =>
      (writeRegionTo_alike c .stack).bind fun _ => writeRegionTo_alike c .heap

theorem ofConfigurationTo_alike {σ : Type} (c : Configuration) :
    Alike (σ := σ) d (ofConfigurationTo d c) (ofConfiguration c) :=
  ((writeContentsTo_alike c).build _).timed _

end InitialValue

/-! ## The start of an analysis -/

namespace Graph

open FlowAutomaton.Action

/-- Starts an analysis, with the diagnostics at hand. -/
def startTo (d : Diagnostics) (ip : Address) (c : Configuration) : Action Graph Vertex := do
  let g ← Action.get
  if g.vertices.size ≠ 0 then Action.fail (.notEmpty g.vertices.size)
  let value ← InitialValue.ofConfigurationTo d c
  Action.modify fun g => { g with counter := {} }
  let v ← insert
    { id := rootId, ip := ip, value := value, context := ⟨c.addressSize, c.operandSize⟩ }
  Action.log "cfa" ("root state " ++ v.state.label ++ "\n")
  pure v

theorem startTo_alike (d : Diagnostics) (ip : Address) (c : Configuration) :
    Alike d (startTo d ip c) (start ip c) := by
  unfold startTo start
  refine (Alike.refl _).bind fun g => ?_
  dsimp only
  by_cases hg : g.vertices.size ≠ 0
  · rw [if_pos hg, if_pos hg]
    exact fun _ => rfl
  · rw [if_neg hg, if_neg hg]
    exact (InitialValue.ofConfigurationTo_alike c).bind fun _ => .refl _

end Graph

/-! ## Where it does make a difference -/

/-- Whether warnings are shown matters to a request for memory exactly where one would name a
region that has no name and is not that of the address. -/
theorem Value.requestMemory_differs_iff (l : Location) (region : Region) (i : Initializer)
    (v : Value) :
    ((requestMemory true l region i).run v).result ≠ ((requestMemory false l region i).run v).result ↔
      l.address.region ≠ region ∧ ∃ e, region.name = .error e := by
  by_cases h : l.address.region = region
  · subst h
    rw [InitialValue.requestMemory_own, InitialValue.requestMemory_own]
    simp
  · unfold requestMemory
    cases hn : region.name with
    | ok name => simp [h]
    | error e =>
      simp only [h, ne_eq, not_false_eq_true, if_true, Action.run_bind_emit]
      simp [Action.run_bind]

end FlowAutomaton
