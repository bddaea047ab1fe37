/-
A saved automaton is loaded again. If the counter of a well-formed automaton is not below any of
its ids, and its checkpoint could be written to a file that gives back what it takes, then reading
the file succeeds and gives the same plain graph: the same vertices with the same contents, the same
edges and the same counter.
-/
import FlowAutomaton.Proofs.Checkpoint.Files
import FlowAutomaton.Proofs.Graph.Equivalence

namespace FlowAutomaton

namespace Checkpoint

open FlowAutomaton.Graph (Represents)

variable {g : Graph} {σ : Type} [FileSystem σ]

/-! ## The stored states and edges -/

theorem mem_states {s : State} : s ∈ states g ↔ ∃ id, g.state? id = some s := by
  rw [states, List.mem_filterMap]
  constructor
  · rintro ⟨id, -, hs⟩
    exact ⟨id, hs⟩
  · rintro ⟨id, hs⟩
    exact ⟨id, g.mem_ids.2 (Graph.hasState_iff.2 ⟨s, hs⟩), hs⟩

theorem find?_states (h : g.WF) (id : StateId) :
    (states g).find? (fun s => s.id == id) = g.state? id := by
  cases hs : g.state? id with
  | none =>
    refine List.find?_eq_none.2 fun t ht he => ?_
    obtain ⟨k, hk⟩ := mem_states.1 ht
    have hi : k = id := (h.id_eq k t hk).symm.trans (beq_iff_eq.1 he)
    rw [hi, hs] at hk
    cases hk
  | some s =>
    cases ht : (states g).find? fun s => s.id == id with
    | none =>
      have hn := List.find?_eq_none.1 ht s (mem_states.2 ⟨id, hs⟩)
      exact absurd (beq_iff_eq.2 (h.id_eq id s hs)) hn
    | some t =>
      -- whatever was found has the id, and no two vertices have one id
      obtain ⟨k, hk⟩ := mem_states.1 (List.mem_of_find?_eq_some ht)
      have hi : t.id = id := by simpa using List.find?_some ht
      rw [h.eq_of_id hk hs (hi.trans (h.id_eq id s hs).symm)]

theorem exists_mem_states (h : g.WF) {id : StateId} (hi : g.hasState id = true) :
    ∃ s ∈ states g, s.id = id := by
  obtain ⟨s, hs⟩ := Graph.hasState_iff.1 hi
  exact ⟨s, mem_states.2 ⟨id, hs⟩, h.id_eq id s hs⟩

/-- The plain graph that the stored states, edges and counter make. -/
theorem ofStored_states (h : g.WF) :
    Digraph.ofStored (states g) g.edges g.counter.last = g.view := by
  refine Digraph.ext (funext fun id => ?_) (Set.ext fun ⟨u, w⟩ => ?_) rfl
  · rw [Digraph.states_ofStored, find?_states h]
    rfl
  · rw [Digraph.mem_edges_ofStored, Graph.mem_edges]
    rfl

/-- The fields of an automaton are read as its states, its edges and its counter. -/
theorem read_fields (g : Graph) :
    (read : Reader (List State × List (StateId × StateId) × StateId)).run (fields g) =
      .ok ((states g, g.edges, g.counter.last), []) := by
  have hw : fields g = write (states g, g.edges, g.counter.last) ++ [] := by
    rw [List.append_nil, fields, List.append_assoc]
    rfl
  rw [hw]
  exact read_write _ []

/-! ## Saving and loading -/

theorem accepted_fields (h : g.WF) (hc : ∀ id, g.hasState id = true → id ≤ g.counter.last) :
    Accepted (fields g) (states g) g.edges g.counter.last where
  read := ⟨[], read_fields g⟩
  ends := by
    rintro ⟨u, w⟩ he
    have hw := g.mem_edges.1 he
    exact ⟨exists_mem_states h (Graph.hasState_of_mem_succIds hw),
      exists_mem_states h (h.succs_closed u w hw)⟩
  le_last := by
    intro s hs
    obtain ⟨id, hid⟩ := mem_states.1 hs
    rw [h.id_eq id s hid]
    exact hc id (Graph.hasState_iff.2 ⟨s, hid⟩)

/-- Reading the fields of an automaton into the empty one makes the same plain graph. -/
theorem run_restore_fields (h : g.WF) (hc : ∀ id, g.hasState id = true → id ≤ g.counter.last)
    (path : String) :
    ∃ k es, (restore path (fields g)).run {} = ⟨.ok (), k, es⟩ ∧ Represents k g.view := by
  rw [← ofStored_states h]
  exact (accepted_fields h hc).run_restore path

/-- An automaton that was saved in an ordinary file is loaded again, with all its vertices, all that
is known in each of them, all its edges and its counter. -/
theorem load_save (h : g.WF) (hc : ∀ id, g.hasState id = true → id ≤ g.counter.last)
    {path : String} {st : σ} (hb : FileSystem.ReadsBack path st)
    (hs : ((save path g).run st).result = .ok ()) :
    ∃ k, ((load path).run ((save path g).run st).state).result = .ok k ∧
      k.WF ∧ k.ids = g.ids ∧ k.edges = g.edges ∧ k.counter = g.counter ∧
      ∀ id, k.state? id = g.state? id := by
  obtain ⟨k, es, hk, hr⟩ := run_restore_fields h hc path
  have hf := contents_of_save hb hs
  have hg := h.represents
  exact ⟨k, result_load hf hk, hr.wf, hr.ids_eq hg, hr.edges_eq hg, hr.counter, hr.state?_eq hg⟩

/-- A value with registers and memory of several kinds. -/
def mixedValue : Value where
  registers :=
    (({} : Table String RegisterCell).insert "esp"
      ⟨32, .stack, some (.masked (-4096) 255), some (.exact 15)⟩).insert "eax" { width := 32 }
  memory :=
    ({} : Table Location MemoryCell).insert ⟨⟨.heap, 16, 32⟩, 4⟩
      ⟨4, .bytes "90c3", some (.masked 1 3)⟩

/-- Two vertices with an edge between them, and one from the second to itself. -/
def mixedLoop : Graph :=
  Graph.afterAll {}
    [.add { id := 7, ip := ⟨.global, 4096, 32⟩, value := mixedValue, branch := some true },
      .duplicate { bytes := [0x90] }, .link 7 8, .link 8 8]

theorem load_save_mixedLoop :
    mixedLoop.WF ∧ mixedLoop.hasEdge 7 8 = true ∧ mixedLoop.hasEdge 8 8 = true ∧
      FileSystem.ReadsBack "loop" ({} : Storage) ∧
      ((save "loop" mixedLoop).run ({} : Storage)).result = .ok () ∧
      ∃ k, ((load "loop").run ((save "loop" mixedLoop).run ({} : Storage)).state).result = .ok k ∧
        k.WF ∧ k.ids = mixedLoop.ids ∧ k.edges = mixedLoop.edges ∧ k.counter = mixedLoop.counter ∧
        ∀ id, k.state? id = mixedLoop.state? id := by
  have h : mixedLoop.WF := Graph.WF.empty.afterAll _
  have hle : ∀ id ∈ mixedLoop.vertices.keys, id ≤ mixedLoop.counter.last := by
    rw [show mixedLoop.vertices.keys = [7, 8] from rfl]
    exact List.forall_mem_cons.2 ⟨by decide, List.forall_mem_singleton.2 (by decide)⟩
  have hc : ∀ id, mixedLoop.hasState id = true → id ≤ mixedLoop.counter.last :=
    fun id hi => hle id (Graph.mem_keys_iff.2 hi)
  have hb : FileSystem.ReadsBack "loop" ({} : Storage) := Storage.readsBack rfl {}
  have hs : ((save "loop" mixedLoop).run ({} : Storage)).result = .ok () := by rfl
  exact ⟨h, by decide, by decide, hb, hs, load_save h hc hb hs⟩

end Checkpoint

end FlowAutomaton
