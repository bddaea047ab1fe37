/-
Configurations and the steps that made them. A step that fails changes nothing. What a
configuration holds is what the steps say that succeeded: the registers as they were declared, and
for each register and each extent of a region the initializer that was given last.

`Holds` says that of a configuration and some steps; one step that succeeds keeps it
(`Holds.after`), and a run is steps one after the other.
-/
import FlowAutomaton.Proofs.Action
import FlowAutomaton.Proofs.Register.Table
import FlowAutomaton.Proofs.Table

namespace FlowAutomaton

instance : Std.LawfulEqOrd Extent where
  eq_of_compare {a b} h := by
    obtain ⟨ho, hc⟩ := compareLex_eq_eq.1 h
    obtain ⟨o, c⟩ := a
    obtain ⟨o', c'⟩ := b
    rw [Extent.mk.injEq]
    exact ⟨Std.LawfulEqOrd.eq_of_compare ho, Std.LawfulEqOrd.eq_of_compare hc⟩

/-- The last of the values that the members of a list give. -/
theorem getLast?_filterMap_concat {α β : Type} (f : α → Option β) (l : List α) (a : α) :
    ((l ++ [a]).filterMap f).getLast? = (f a).or (l.filterMap f).getLast? := by
  rw [List.filterMap_append, List.getLast?_append]
  cases h : f a with
  | none => simp [h]
  | some b => simp [h]

namespace Configuration

open FlowAutomaton.Action

/-! ## Steps -/

/-- A step that changes a configuration. -/
inductive Step where
  | parameter (name value : String)
  | declare (name : String) (width : UInt32)
  | declareStackPointer (name : String) (width : UInt32)
  | setRegister (name : String) (i : Initializer)
  | setMemory (region : Region) (extent : Extent) (i : Initializer)

namespace Step

/-- The action of a step. -/
def action : Step → Action Configuration Unit
  | parameter name value => setParameter name value
  | declare name width => tryModify (·.declare name width)
  | declareStackPointer name width => tryModify (·.declareStackPointer name width)
  | setRegister name i => tryModify (·.setRegister name i)
  | setMemory region extent i => tryModify (·.setMemory region extent i)

/-- The register that a step declares. -/
def register? : Step → Option Register
  | declare name width => some ⟨name, width, false⟩
  | declareStackPointer name width => some ⟨name, width, true⟩
  | _ => none

/-- What a step gives to the register of a name. -/
def content? (name : String) : Step → Option Initializer
  | setRegister name' i => if name = name' then some i else none
  | _ => none

/-- What a step gives to an extent of a region. -/
def memory? (region : Region) (extent : Extent) : Step → Option Initializer
  | setMemory region' extent' i => if region = region' ∧ extent = extent' then some i else none
  | _ => none

end Step

/-- The configuration after a step, also after one that failed. -/
def after (c : Configuration) (s : Step) : Configuration := (s.action.run c).state

/-- The configuration after some steps, one after the other. -/
def afterAll (c : Configuration) (ss : List Step) : Configuration := ss.foldl after c

/-- The configuration that some steps make. -/
def configured (ss : List Step) : Configuration := afterAll {} ss

/-- The steps that succeed, of some steps one after the other. -/
def accepted (c : Configuration) : List Step → List Step
  | [] => []
  | s :: ss =>
    match (s.action.run c).result with
    | .ok () => s :: accepted (c.after s) ss
    | .error _ => accepted (c.after s) ss

/-! ## What steps say -/

/-- The registers that some steps declare, in the order of the steps. -/
def declared (l : List Step) : List Register := l.filterMap Step.register?

/-- What some steps give last to the register of a name. -/
def lastContent (l : List Step) (name : String) : Option Initializer :=
  (l.filterMap (Step.content? name)).getLast?

/-- What some steps give last to an extent of a region. -/
def lastMemory (l : List Step) (region : Region) (extent : Extent) : Option Initializer :=
  (l.filterMap (Step.memory? region extent)).getLast?

/-! ## What a configuration holds -/

/-- The initial content of an extent of a region. -/
def memory? (c : Configuration) (region : Region) (extent : Extent) : Option Initializer :=
  (c.memory region).toOption.bind (·.find? extent)

/-- A configuration holds what some steps say. -/
structure Holds (c : Configuration) (l : List Step) : Prop where
  registers : c.registers.registers = declared l
  contents : ∀ name, c.contents.find? name = lastContent l name
  memory : ∀ region extent, c.memory? region extent = lastMemory l region extent

/-- What holds of a configuration at any time. -/
structure WF (c : Configuration) : Prop where
  names_nodup : (c.registers.registers.map Register.name).Nodup
  /-- Initial contents are those of declared registers. -/
  contents_declared : ∀ name i, c.contents.find? name = some i →
    ∃ r, c.registers.find? name = some r

/-! ## One step -/

/-- What a step that succeeds does. -/
inductive Effect (c : Configuration) : Step → Configuration → Prop
  | ignored {name : String} (hname : Parameter.ofName? name = none) (value : String) :
    Effect c (.parameter name value) c
  | parameter {name value : String} {p : Parameter} {n : UInt32}
    (hname : Parameter.ofName? name = some p) (hvalue : Parameter.read value = .ok n) :
    Effect c (.parameter name value) (c.assign p n)
  | register {s : Step} {r : Register} (hs : s.register? = some r)
    (hnew : c.registers.find? r.name = none) :
    Effect c s { c with registers := ⟨c.registers.registers ++ [r]⟩ }
  | content {name : String} {r : Register} (hr : c.registers.find? name = some r)
    (i : Initializer) :
    Effect c (.setRegister name i) { c with contents := c.contents.insert name i }
  | memory {region : Region} {extent : Extent} {i : Initializer} {c' : Configuration}
    (h : c.setMemory region extent i = .ok c') : Effect c (.setMemory region extent i) c'

variable {c c' : Configuration}

theorem run_tryModify_of_ok {f : Configuration → Except Fault Configuration}
    (h : ((tryModify f).run c).result = .ok ()) : f c = .ok ((tryModify f).run c).state := by
  rw [run_tryModify] at h ⊢
  cases hf : f c with
  | ok c' => rfl
  | error e =>
    rw [hf] at h
    cases h

theorem run_tryModify_of_error {f : Configuration → Except Fault Configuration} {e : Fault}
    (h : ((tryModify f).run c).result = .error e) : ((tryModify f).run c).state = c := by
  rw [run_tryModify] at h ⊢
  cases hf : f c with
  | ok c' =>
    rw [hf] at h
    cases h
  | error e => rfl

theorem setParameter_of_name {name : String} {p : Parameter} (h : Parameter.ofName? name = some p)
    (value : String) :
    setParameter name value = tryModify fun c => (Parameter.read value).map (c.assign p) := by
  rw [setParameter, h]

theorem setParameter_of_other {name : String} (h : Parameter.ofName? name = none)
    (value : String) :
    setParameter name value =
      emit (.warning ("Ignored unsupported parameter " ++ name ++ "\n")) := by
  rw [setParameter, h]

/-- A declaration that succeeds adds the register at the end. -/
theorem Effect.of_declared {s : Step} (call : RegisterTable.Call)
    (hs : s.register? = some call.register)
    (h : ((call.attempt c.registers).map fun t => { c with registers := t }) = .ok c') :
    Effect c s c' := by
  have htried := RegisterTable.tried c.registers call
  generalize call.attempt c.registers = x at htried h
  cases htried with
  | added hfree hwidth hnew =>
    cases h
    exact .register hs (RegisterTable.find?_eq_none_iff.2 hnew)
  | _ => cases h

/-- A step that succeeds does what `Effect` says. -/
theorem effect_after {s : Step} (h : (s.action.run c).result = .ok ()) :
    Effect c s (c.after s) := by
  cases s with
  | parameter name value =>
    rw [after, Step.action] at *
    cases hp : Parameter.ofName? name with
    | none =>
      rw [setParameter_of_other hp]
      exact .ignored hp value
    | some p =>
      rw [setParameter_of_name hp] at h ⊢
      have hf := run_tryModify_of_ok h
      cases hv : Parameter.read value with
      | ok n =>
        rw [hv] at hf
        rw [← Except.ok.inj hf]
        exact .parameter hp hv
      | error e =>
        rw [hv] at hf
        cases hf
  | declare name width =>
    exact .of_declared (.declare name width) rfl (run_tryModify_of_ok h)
  | declareStackPointer name width =>
    exact .of_declared (.declareStackPointer name width) rfl (run_tryModify_of_ok h)
  | setRegister name i =>
    have hf : c.setRegister name i = .ok (c.after (.setRegister name i)) := run_tryModify_of_ok h
    unfold setRegister at hf
    split at hf
    · rename_i hr
      obtain ⟨r, hr⟩ := Option.isSome_iff_exists.1 hr
      rw [← Except.ok.inj hf]
      exact .content hr i
    · cases hf
  | setMemory region extent i => exact .memory (run_tryModify_of_ok h)

/-- A step that fails changes nothing. -/
theorem after_of_error {s : Step} {e : Fault} (h : (s.action.run c).result = .error e) :
    c.after s = c := by
  cases s with
  | parameter name value =>
    rw [after, Step.action] at *
    cases hp : Parameter.ofName? name with
    | none =>
      rw [setParameter_of_other hp]
      rfl
    | some p =>
      rw [setParameter_of_name hp] at h ⊢
      exact run_tryModify_of_error h
  | declare name width => exact run_tryModify_of_error h
  | declareStackPointer name width => exact run_tryModify_of_error h
  | setRegister name i => exact run_tryModify_of_error h
  | setMemory region extent i => exact run_tryModify_of_error h

/-! ## Memory -/

/-- An initializer that is given to an extent of a region is found there, and all others stay. -/
theorem memory?_setMemory {region : Region} {extent : Extent} {i : Initializer}
    (h : c.setMemory region extent i = .ok c') (region' : Region) (extent' : Extent) :
    c'.memory? region' extent' =
      if region' = region ∧ extent' = extent then some i else c.memory? region' extent' := by
  cases region with
  | unknown code unnamed => cases h
  | _ =>
    cases h
    cases region' <;> simp [memory?, memory, Except.toOption, Table.find?_insert]

theorem registers_setMemory {region : Region} {extent : Extent} {i : Initializer}
    (h : c.setMemory region extent i = .ok c') :
    c'.registers = c.registers ∧ c'.contents = c.contents := by
  cases region with
  | unknown code unnamed => cases h
  | _ =>
    cases h
    exact ⟨rfl, rfl⟩

theorem memory?_assign (c : Configuration) (p : Parameter) (n : UInt32) (region : Region)
    (extent : Extent) : (c.assign p n).memory? region extent = c.memory? region extent := by
  cases p with
  | _ => cases region <;> rfl

theorem registers_assign (c : Configuration) (p : Parameter) (n : UInt32) :
    (c.assign p n).registers = c.registers ∧ (c.assign p n).contents = c.contents := by
  cases p with
  | _ => exact ⟨rfl, rfl⟩

/-! ## Holding what steps say -/

/-- A step that declares a register gives nothing a content. -/
theorem Step.content?_of_register {s : Step} {r : Register} (h : s.register? = some r)
    (name : String) (region : Region) (extent : Extent) :
    s.content? name = none ∧ s.memory? region extent = none := by
  cases s with
  | declare name' width => exact ⟨rfl, rfl⟩
  | declareStackPointer name' width => exact ⟨rfl, rfl⟩
  | _ => cases h

/-- What a step adds to what steps before it say. -/
theorem Holds.concat {l : List Step} (h : c.Holds l) {s : Step}
    (hr : c'.registers.registers = c.registers.registers ++ s.register?.toList)
    (hc : ∀ name, c'.contents.find? name = (s.content? name).or (c.contents.find? name))
    (hm : ∀ region extent,
      c'.memory? region extent = (s.memory? region extent).or (c.memory? region extent)) :
    c'.Holds (l ++ [s]) where
  registers := by
    rw [hr, h.registers, declared, declared, List.filterMap_append]
    cases hs : s.register? <;> simp [hs]
  contents name := by rw [hc, h.contents, lastContent, lastContent, getLast?_filterMap_concat]
  memory region extent := by
    rw [hm, h.memory, lastMemory, lastMemory, getLast?_filterMap_concat]

/-- After a step that succeeds, the configuration holds what the step says as well. -/
theorem Holds.after {l : List Step} (h : c.Holds l) {s : Step} (hs : Effect c s c') :
    c'.Holds (l ++ [s]) := by
  cases hs with
  | ignored hname value =>
    exact h.concat (List.append_nil _).symm (fun _ => rfl) fun _ _ => rfl
  | @parameter name value p n hname hvalue =>
    obtain ⟨hr, hc⟩ := registers_assign c p n
    refine h.concat ?_ (fun name' => ?_) fun region extent => memory?_assign c p n region extent
    · rw [hr]
      exact (List.append_nil _).symm
    · rw [hc]
      rfl
  | @register s r hs hnew =>
    have hnone := Step.content?_of_register hs
    refine h.concat (by rw [hs]; rfl) (fun name => ?_) fun region extent => ?_
    · rw [(hnone name .global ⟨0, 0⟩).1]
      rfl
    · rw [(hnone "" region extent).2]
      rfl
  | @content name r hr i =>
    refine h.concat (List.append_nil _).symm (fun name' => ?_) fun _ _ => rfl
    rw [Table.find?_insert, Step.content?]
    split <;> rfl
  | memory hm =>
    obtain ⟨hr, hc⟩ := registers_setMemory hm
    refine h.concat ?_ (fun name => ?_) fun region extent => ?_
    · rw [hr]
      exact (List.append_nil _).symm
    · rw [hc]
      rfl
    · rw [memory?_setMemory hm, Step.memory?]
      split <;> rfl

theorem WF.after (h : c.WF) {s : Step} (hs : Effect c s c') : c'.WF := by
  cases hs with
  | ignored hname value => exact h
  | @parameter name value p n hname hvalue =>
    obtain ⟨hr, hc⟩ := registers_assign c p n
    exact ⟨hr ▸ h.names_nodup, hr ▸ hc ▸ h.contents_declared⟩
  | @register s r hs hnew =>
    refine ⟨?_, fun name i hi => ?_⟩
    · have hnotMem : r.name ∉ c.registers.registers.map Register.name := by
        intro hm
        obtain ⟨r', hr', hn⟩ := List.mem_map.1 hm
        exact List.find?_eq_none.1 hnew r' hr' (by simp [hn])
      rw [List.map_append, List.map_singleton]
      exact List.nodup_append.2 ⟨h.names_nodup, List.pairwise_singleton _ _, by
        rintro a ha b hb rfl
        exact hnotMem (List.mem_singleton.1 hb ▸ ha)⟩
    · obtain ⟨r', hr'⟩ := h.contents_declared name i hi
      exact ⟨r', RegisterTable.find?_concat hr' r⟩
  | @content name r hr i =>
    refine ⟨h.names_nodup, fun name' i' hi => ?_⟩
    rw [Table.find?_insert] at hi
    split at hi
    · rename_i hn
      exact ⟨r, hn ▸ hr⟩
    · exact h.contents_declared name' i' hi
  | memory hm =>
    obtain ⟨hr, hc⟩ := registers_setMemory hm
    exact ⟨hr ▸ h.names_nodup, hr ▸ hc ▸ h.contents_declared⟩

/-! ## Parameters -/

/-- A step that sets no parameter leaves them all as they were. -/
theorem Effect.parameters {s : Step} (h : Effect c s c')
    (hs : ∀ name value, s ≠ .parameter name value) :
    c'.addressSize = c.addressSize ∧ c'.operandSize = c.operandSize ∧
      c'.loglevel = c.loglevel := by
  cases h with
  | @ignored name hname value => exact absurd rfl (hs name value)
  | @parameter name value p n hname hvalue => exact absurd rfl (hs name value)
  | @register s r hr hnew => exact ⟨rfl, rfl, rfl⟩
  | @content name r hr i => exact ⟨rfl, rfl, rfl⟩
  | @memory region extent i c' hm =>
    cases region with
    | unknown code unnamed => cases hm
    | _ =>
      cases hm
      exact ⟨rfl, rfl, rfl⟩

theorem parameters_afterAll (c : Configuration) {ss : List Step}
    (h : ∀ s ∈ ss, ∀ name value, s ≠ .parameter name value) :
    (c.afterAll ss).addressSize = c.addressSize ∧ (c.afterAll ss).operandSize = c.operandSize ∧
      (c.afterAll ss).loglevel = c.loglevel := by
  induction ss generalizing c with
  | nil => exact ⟨rfl, rfl, rfl⟩
  | cons s ss ih =>
    obtain ⟨hs, hss⟩ := List.forall_mem_cons.1 h
    obtain ⟨ha, ho, hl⟩ := ih (c.after s) hss
    cases hr : (s.action.run c).result with
    | ok u =>
      obtain ⟨ha', ho', hl'⟩ := (effect_after hr).parameters hs
      exact ⟨ha.trans ha', ho.trans ho', hl.trans hl'⟩
    | error e =>
      have he : c.after s = c := after_of_error hr
      rw [he] at ha ho hl
      rw [afterAll, List.foldl_cons, he]
      exact ⟨ha, ho, hl⟩

/-! ## Runs -/

theorem Holds.afterAll {l : List Step} (h : c.Holds l) (hw : c.WF) (ss : List Step) :
    (c.afterAll ss).Holds (l ++ accepted c ss) ∧ (c.afterAll ss).WF := by
  induction ss generalizing c l with
  | nil =>
    rw [accepted, List.append_nil]
    exact ⟨h, hw⟩
  | cons s ss ih =>
    rw [accepted]
    cases hs : (s.action.run c).result with
    | ok u =>
      have he := effect_after hs
      obtain ⟨hh, hw'⟩ := ih (h.after he) (hw.after he)
      rw [List.append_assoc] at hh
      exact ⟨hh, hw'⟩
    | error e =>
      have he : c.after s = c := after_of_error hs
      exact ih (he.symm ▸ h) (he.symm ▸ hw)

/-- The configuration that some steps make holds what those of them say that succeed. -/
theorem holds_configured (ss : List Step) :
    (configured ss).Holds (accepted {} ss) ∧ (configured ss).WF := by
  have hempty : Holds {} [] := by
    refine ⟨rfl, fun _ => rfl, fun region extent => ?_⟩
    cases region <;> rfl
  exact hempty.afterAll ⟨List.nodup_nil, by rintro name i ⟨⟩⟩ ss

end Configuration

end FlowAutomaton
