/-
Checkpoints and sound data. Each part of a state is read back as it stands, so a checkpoint is
refused for the ids in it, never for the values: what is loaded is as sound as the states in the
file are. A checkpoint of an automaton that was made from sound data holds sound states, and so it
is loaded as a sound automaton again.
-/
import FlowAutomaton.Proofs.Checkpoint.RoundTrip
import FlowAutomaton.Proofs.Soundness

namespace FlowAutomaton.Checkpoint

open FileSystem (contents)
open FlowAutomaton.Graph (Represents)

variable {σ : Type} [FileSystem σ]

/-! ## What is refused -/

/-- A file is loaded exactly if its fields are accepted. -/
theorem loads_iff {path : String} {st : σ} {fs : List Field} {n : Nat}
    (hf : contents path st = .ok (.checkpoint fs n)) :
    (∃ g, ((load path).run st).result = .ok g) ↔ ∃ l m last, Accepted fs l m last := by
  constructor
  · rintro ⟨g, hg⟩
    obtain ⟨fs', n', l, m, last, hf', ha, -⟩ := accepted_of_load hg
    cases hf.symm.trans hf'
    exact ⟨l, m, last, ha⟩
  · rintro ⟨l, m, last, ha⟩
    obtain ⟨k, es, hk, -⟩ := ha.run_restore path
    exact ⟨k, result_load hf hk⟩

theorem accepted_write {l : List State} {m : List (StateId × StateId)} {last : StateId}
    (hends : ∀ e ∈ m, (∃ s ∈ l, s.id = e.1) ∧ ∃ s ∈ l, s.id = e.2) (hle : ∀ s ∈ l, s.id ≤ last)
    (rest : List Field) : Accepted (write (l, m, last) ++ rest) l m last :=
  ⟨⟨rest, read_write (l, m, last) rest⟩, hends, hle⟩

/-- Written states are accepted for their ids alone. -/
theorem accepted_write_iff {l : List State} {m : List (StateId × StateId)} {last : StateId}
    {rest : List Field} :
    (∃ l' m' last', Accepted (write (l, m, last) ++ rest) l' m' last') ↔
      (∀ e ∈ m, e.1 ∈ l.map State.id ∧ e.2 ∈ l.map State.id) ∧
        ∀ id ∈ l.map State.id, id ≤ last := by
  rw [List.forall_mem_map]
  simp only [List.mem_map]
  constructor
  · -- what is read is what was written, so the conditions are those of the written states
    rintro ⟨l', m', last', ⟨rest', hr⟩, hends, hle⟩
    cases (read_write (l, m, last) rest).symm.trans hr
    exact ⟨hends, hle⟩
  · rintro ⟨hends, hle⟩
    exact ⟨l, m, last, accepted_write hends hle rest⟩

/-! ## What is loaded -/

theorem state?_of_represents {g : Graph} {l : List State} {m : List (StateId × StateId)}
    {last : StateId} (h : Represents g (Digraph.ofStored l m last)) (id : StateId) :
    g.state? id = l.find? fun s => s.id == id := by
  rw [h.states, Digraph.states_ofStored]

/-- An automaton that is loaded is as sound as those states of its file that come first under
their ids. -/
theorem sound_of_load_iff {path : String} {st : σ} {g : Graph}
    (h : ((load path).run st).result = .ok g) :
    ∃ fs n l m last, contents path st = .ok (.checkpoint fs n) ∧ Accepted fs l m last ∧
      (∀ id, g.state? id = l.find? fun s => s.id == id) ∧
      (g.Sound ↔ ∀ id s, (l.find? fun s => s.id == id) = some s → s.Sound) := by
  obtain ⟨fs, n, l, m, last, hf, ha, hrep⟩ := accepted_of_load h
  have hstates := state?_of_represents hrep
  refine ⟨fs, n, l, m, last, hf, ha, hstates, forall_congr' fun id => ?_⟩
  rw [hstates]

/-- An automaton that was saved in an ordinary file is loaded as sound as it was. -/
theorem sound_load_save {g : Graph} (h : g.WF)
    (hc : ∀ id, g.hasState id = true → id ≤ g.counter.last) {path : String} {st : σ}
    (hb : FileSystem.ReadsBack path st) (hs : ((save path g).run st).result = .ok ()) :
    ∃ k, ((load path).run ((save path g).run st).state).result = .ok k ∧ (k.Sound ↔ g.Sound) := by
  obtain ⟨k, es, hk, hrep⟩ := run_restore_fields h hc path
  exact ⟨k, result_load (contents_of_save hb hs) hk, hrep.sound_iff⟩

/-! ## Unsound states -/

/-- States that cannot be made step by step: with an address in no region, with one at a negative
offset, with a statement of no kind, with a register that has no width and holds bytes, and with a
cell of memory that has another count than its location. -/
def unsoundStates : List State :=
  [{ id := 1, ip := ⟨.unknown 3 (by decide), 5, 32⟩ },
    { id := 2, ip := ⟨.global, -1, 32⟩ },
    { id := 3, statements := [⟨.unknown 7 (by decide), "", ""⟩] },
    { id := 4, value.registers :=
        ({} : Table String RegisterCell).insert "eax" ⟨0, .global, some (.bytes "90"), none⟩ },
    { id := 5, value.memory :=
        ({} : Table Location MemoryCell).insert ⟨⟨.heap, 16, 32⟩, 4⟩ ⟨5, .exact 0, none⟩ }]

/-- A file with these states. -/
def unsoundFile : Storage where
  files := ({} : Table String Stored).insert "raw" (.checkpoint
    (write ((unsoundStates, [], 5) : List State × List (StateId × StateId) × StateId)) 0)

theorem accepted_unsound :
    Accepted (write ((unsoundStates, [], 5) : List State × List (StateId × StateId) × StateId))
      unsoundStates [] 5 := by
  have hle : ∀ s ∈ unsoundStates, s.id ≤ 5 := by
    rw [unsoundStates]
    simp only [List.forall_mem_cons]
    decide
  have h := accepted_write (m := []) (fun e he => absurd he List.not_mem_nil) hle []
  rwa [List.append_nil] at h

theorem load_unsound :
    ∃ g, ((load "raw").run unsoundFile).result = .ok g ∧ ¬g.Sound ∧
      (∃ s, g.state? 1 = some s ∧ s.ip.region ∉ [Region.global, .stack, .heap]) ∧
      (∃ s, g.state? 2 = some s ∧ s.ip.offset < 0) ∧
      (∃ s, g.state? 3 = some s ∧ ∃ t ∈ s.statements, ¬t.Sound) ∧
      (∃ s, g.state? 4 = some s ∧ ∃ e ∈ s.value.registers.entries,
        e.2.width = 0 ∧ e.2.content.any Content.isBytes = true) ∧
      ∃ s, g.state? 5 = some s ∧ ∃ e ∈ s.value.memory.entries, e.2.count ≠ e.1.count := by
  obtain ⟨k, es, hk, hrep⟩ := accepted_unsound.run_restore "raw"
  have hstates := state?_of_represents hrep
  refine ⟨k, result_load rfl hk, fun h => ?_, ⟨_, hstates 1, by decide⟩, ⟨_, hstates 2, by decide⟩,
    ⟨_, hstates 3, _, List.mem_cons_self, by decide⟩,
    ⟨_, hstates 4, _, List.mem_cons_self, by decide⟩,
    ⟨_, hstates 5, _, List.mem_cons_self, by decide⟩⟩
  have hip := (h 2 _ (hstates 2)).ip.offset_nonneg
  exact absurd hip (by decide)

/-! ## Values that are kept -/

/-- Loading keeps values as they are and does not judge them. The state of a vertex that is loaded
is the first one in the file with its id, so the automaton is sound exactly if these states are. A
file in which states, edges and a last id were written is refused only if an edge has an end that is
no state, or if the last id is below that of a state. What calls with sound data have made from the
empty automaton is loaded, once it was saved in an ordinary file, as a sound automaton. -/
theorem load_keeps_values :
    (∀ path (st : σ) g, ((load path).run st).result = .ok g →
      ∃ fs n l m last, contents path st = .ok (.checkpoint fs n) ∧ Accepted fs l m last ∧
        (∀ id, g.state? id = l.find? fun s => s.id == id) ∧
        (g.Sound ↔ ∀ id s, (l.find? fun s => s.id == id) = some s → s.Sound)) ∧
    (∀ path (st : σ) n (l : List State) (m : List (StateId × StateId)) (last : StateId) rest,
      contents path st = .ok (.checkpoint (write (l, m, last) ++ rest) n) →
      ((∃ g, ((load path).run st).result = .ok g) ↔
        (∀ e ∈ m, e.1 ∈ l.map State.id ∧ e.2 ∈ l.map State.id) ∧
          ∀ id ∈ l.map State.id, id ≤ last)) ∧
    ∀ path (st : σ) (cs : List Graph.Call), (∀ u, Graph.Call.update u ∈ cs → u.Sound) →
      (∀ id, (Graph.afterCalls {} cs).hasState id = true →
        id ≤ (Graph.afterCalls {} cs).counter.last) →
      FileSystem.ReadsBack path st →
      ((save path (Graph.afterCalls {} cs)).run st).result = .ok () →
      ∃ k, ((load path).run ((save path (Graph.afterCalls {} cs)).run st).state).result = .ok k ∧
        k.Sound := by
  refine ⟨fun path st g h => sound_of_load_iff h, fun path st n l m last rest hf => ?_,
    fun path st cs hcs hc hb hs => ?_⟩
  · rw [loads_iff hf]
    exact accepted_write_iff
  · have hsound := Graph.Sound.empty.afterCalls Graph.WF.empty hcs
    obtain ⟨k, hk, hiff⟩ := sound_load_save (Graph.WF.empty.afterCalls cs) hc hb hs
    exact ⟨k, hk, hiff.2 hsound⟩

/-- The start of an analysis of a machine with a register and something in its memory, and a second
vertex. -/
def prepared : List Graph.Call :=
  [.update (.start ⟨.global, 4096, 32⟩ (Configuration.configured
      [.declare "eax" 32, .setMemory .heap ⟨16, 4⟩ ⟨.bytes "90", none⟩])),
    .update (.duplicate {}), .update (.link 0 1)]

theorem sound_prepared : ∀ u, Graph.Call.update u ∈ prepared → u.Sound := by
  rintro u hu
  simp only [prepared, List.mem_cons, Graph.Call.update.injEq, List.not_mem_nil, or_false] at hu
  rcases hu with rfl | rfl | rfl
  · exact ⟨by decide, _, rfl⟩
  · exact show State.Sound {} by decide
  · trivial

theorem load_keeps_values_prepared :
    (∃ g, ((load "raw").run unsoundFile).result = .ok g ∧ ¬g.Sound) ∧
      (Graph.afterCalls {} prepared).hasState 1 = true ∧
      FileSystem.ReadsBack "f" ({} : Storage) ∧
      ∃ k, ((load "f").run
          ((save "f" (Graph.afterCalls {} prepared)).run ({} : Storage)).state).result = .ok k ∧
        k.Sound := by
  obtain ⟨hkept, hrefused, hsaved⟩ := load_keeps_values (σ := Storage)
  have hb : FileSystem.ReadsBack "f" ({} : Storage) := Storage.readsBack rfl {}
  have hkeys : (Graph.afterCalls {} prepared).vertices.keys = [0, 1] := rfl
  have hlast : ∀ id ∈ (Graph.afterCalls {} prepared).vertices.keys,
      id ≤ (Graph.afterCalls {} prepared).counter.last := by
    rw [hkeys]
    exact List.forall_mem_cons.2 ⟨by decide, List.forall_mem_singleton.2 (by decide)⟩
  have hids : (∀ e ∈ ([] : List (StateId × StateId)),
      e.1 ∈ unsoundStates.map State.id ∧ e.2 ∈ unsoundStates.map State.id) ∧
      ∀ id ∈ unsoundStates.map State.id, id ≤ 5 :=
    ⟨fun e he => absurd he List.not_mem_nil, List.forall_mem_map.2 accepted_unsound.le_last⟩
  obtain ⟨g, hg⟩ := (hrefused "raw" unsoundFile 0 unsoundStates [] 5 []
    (by rw [List.append_nil]; rfl)).2 hids
  obtain ⟨fs, n, l, m, last, hf, ha, -, hiff⟩ := hkept "raw" unsoundFile g hg
  -- the states that were accepted are those that were written
  obtain ⟨rest, hr⟩ := ha.read
  obtain ⟨rest', hr'⟩ := accepted_unsound.read
  cases hf
  cases hr.symm.trans hr'
  refine ⟨⟨g, hg, fun h => ?_⟩, by decide, hb, hsaved "f" {} prepared sound_prepared
    (fun id hi => hlast id (Graph.mem_keys_iff.2 hi)) hb rfl⟩
  have hip := (hiff.1 h 2 _ rfl).ip.offset_nonneg
  exact absurd hip (by decide)

end FlowAutomaton.Checkpoint
