/-
The reader of checkpoints returns well-formed automata only, whatever fields it is given. It
accepts exactly those fields that start with some states, some edges between them and a last id
that is not below any of them (`Accepted`). Their counts may be anything, states and edges may
come in any order and more than once, and what comes after the last id is not looked at.

The reader adds what it reads while it reads it, so a run of it that ends with an answer is
followed part by part: the answer of each part says what was read (`times_of_…`), and what was
made of it is known from the other direction (`run_restore…`).
-/
import FlowAutomaton.Proofs.Checkpoint.Restore

namespace FlowAutomaton

/-! ## The plain graph of stored states and edges -/

namespace Digraph

/-- The plain graph that is made from some states, some edges and a last id. -/
def ofStored (l : List State) (m : List (StateId × StateId)) (last : StateId) : Digraph :=
  { m.foldl linkPair (l.foldl add (Graph.view {})) with counter := ⟨last⟩ }

variable (l : List State) (m : List (StateId × StateId)) (last : StateId)

theorem states_ofStored (id : StateId) :
    (ofStored l m last).states id = l.find? fun s => s.id == id := by
  show (m.foldl linkPair (l.foldl add (Graph.view {}))).states id = _
  rw [states_foldl_link, states_foldl_add]
  rfl

theorem mem_edges_ofStored (e : StateId × StateId) : e ∈ (ofStored l m last).edges ↔ e ∈ m := by
  show e ∈ (m.foldl linkPair (l.foldl add (Graph.view {}))).edges ↔ _
  rw [mem_edges_foldl_link, edges_foldl_add]
  constructor
  · rintro (he | he)
    · cases he
    · exact he
  · exact .inr

theorem hasState_foldl_add (id : StateId) :
    (l.foldl add (Graph.view {})).hasState id = true ↔ ∃ s ∈ l, s.id = id := by
  rw [hasState, states_foldl_add]
  show (l.find? fun s => s.id == id).isSome = true ↔ _
  rw [List.find?_isSome]
  simp only [beq_iff_eq]

end Digraph

namespace Checkpoint

open FileSystem (contents)
open FlowAutomaton.Graph (Represents)

/-- The fields of a checkpoint that is accepted, with the states, the edges and the last id that
they start with. -/
structure Accepted (fs : List Field) (l : List State) (m : List (StateId × StateId))
    (last : StateId) : Prop where
  read : ∃ rest, (read : Reader (List State × List (StateId × StateId) × StateId)).run fs =
    .ok ((l, m, last), rest)
  ends : ∀ e ∈ m, (∃ s ∈ l, s.id = e.1) ∧ ∃ s ∈ l, s.id = e.2
  le_last : ∀ s ∈ l, s.id ≤ last

/-! ## What the parts of the reader have read -/

section

variable {path : String} {g : Graph} {d : Digraph}

theorem result_next_eq_ok_iff {α : Type} [Storable α] {fs : List Field} {r : α × List Field} :
    ((next path α fs).run g).result = .ok r ↔ (read : Reader α).run fs = .ok r := by
  rw [next, Action.run_ofExcept]
  cases h : (read : Reader α).run fs with
  | ok r' => simp
  | error e => cases e <;> simp

theorem state_next (α : Type) [Storable α] (fs : List Field) : ((next path α fs).run g).state = g :=
  rfl

/-- Where states were read and added, they were there to be read. -/
theorem times_of_restoreStates {n : Nat} {fs rest : List Field}
    (h : ((restoreStates path n fs).run g).result = .ok rest) :
    ∃ l, (Reader.times (read : Reader State) n).run fs = .ok (l, rest) := by
  induction n generalizing g fs with
  | zero =>
    cases h
    exact ⟨[], rfl⟩
  | succ n ih =>
    obtain ⟨⟨s, fs'⟩, hs, h, -⟩ := Action.run_bind_inv h
    obtain ⟨v, -, h, -⟩ := Action.run_bind_inv h
    obtain ⟨l, hl⟩ := ih h
    exact ⟨s :: l, Reader.times_succ_eq_ok_iff.2 ⟨s, l, fs', result_next_eq_ok_iff.1 hs, hl, rfl⟩⟩

theorem ends_of_restoreEdge (h : Represents g d) {e : StateId × StateId}
    (hr : ((restoreEdge path e).run g).result = .ok ()) :
    d.hasState e.1 = true ∧ d.hasState e.2 = true := by
  rw [restoreEdge, Action.run_bind_quiet (Action.run_get g), h.hasState, h.hasState] at hr
  split at hr
  · rename_i he
    exact Bool.and_eq_true_iff.1 he
  · cases hr

/-- Where edges were read and added, they were there to be read, and their ends were vertices. -/
theorem times_of_restoreEdges {n : Nat} {fs rest : List Field} (h : Represents g d)
    (hr : ((restoreEdges path n fs).run g).result = .ok rest) :
    ∃ l, (Reader.times (read : Reader (StateId × StateId)) n).run fs = .ok (l, rest) ∧
      ∀ e ∈ l, d.hasState e.1 = true ∧ d.hasState e.2 = true := by
  induction n generalizing g d fs with
  | zero =>
    cases hr
    exact ⟨[], rfl, by simp⟩
  | succ n ih =>
    obtain ⟨⟨e, fs'⟩, he, hr, -⟩ := Action.run_bind_inv hr
    obtain ⟨⟨⟩, hlink, hr, -⟩ := Action.run_bind_inv hr
    have hends := ends_of_restoreEdge h hlink
    -- the edge was added to the plain graph, which has the same vertices as before
    obtain ⟨es, hk, hrep⟩ := run_restoreEdge path h hends.1 hends.2
    rw [state_next, hk] at hr
    obtain ⟨l, hl, hall⟩ := ih hrep hr
    refine ⟨e :: l, ?_, List.forall_mem_cons.2 ⟨hends, hall⟩⟩
    exact Reader.times_succ_eq_ok_iff.2 ⟨e, l, fs', result_next_eq_ok_iff.1 he, hl, rfl⟩

/-- Where a counter was taken over, it is not below any vertex. -/
theorem le_of_restoreCounter {last : StateId}
    (h : ((restoreCounter path last).run g).result = .ok ()) :
    ∀ id, g.hasState id = true → id ≤ last := by
  intro id hi
  rw [restoreCounter, Action.run_bind_quiet (Action.run_get g)] at h
  cases hg : g.ids.getLast? with
  | none =>
    have hm := g.mem_ids.2 hi
    rw [List.getLast?_eq_none_iff.1 hg] at hm
    cases hm
  | some greatest =>
    simp only [hg] at h
    split at h
    · cases h
    · rename_i hlt
      exact UInt64.le_trans (g.le_of_getLast?_ids hg hi) (UInt64.not_lt.1 hlt)

/-! ## What is accepted -/

/-- What the reader of fields makes of fields that it accepts: what the updates make that add the
states and the edges in their order. -/
theorem Accepted.run_replay {fs : List Field} {l : List State} {m : List (StateId × StateId)}
    {last : StateId} (h : Accepted fs l m last) (path : String) :
    ∃ es, (restore path fs).run {} = ⟨.ok (), Graph.afterAll {} (replay l m last), es⟩ ∧
      Represents (Graph.afterAll {} (replay l m last)) (Digraph.ofStored l m last) := by
  obtain ⟨rest, hr⟩ := h.read
  refine Checkpoint.run_restore path Graph.WF.empty.represents hr (fun e he => ?_) fun id hi => ?_
  · rw [Digraph.hasState_foldl_add, Digraph.hasState_foldl_add]
    exact h.ends e he
  · obtain ⟨s, hs, rfl⟩ := (Digraph.hasState_foldl_add l id).1 hi
    exact h.le_last s hs

theorem Accepted.run_restore {fs : List Field} {l : List State} {m : List (StateId × StateId)}
    {last : StateId} (h : Accepted fs l m last) (path : String) :
    ∃ k es, (restore path fs).run {} = ⟨.ok (), k, es⟩ ∧
      Represents k (Digraph.ofStored l m last) :=
  ⟨_, h.run_replay path⟩

theorem Accepted.le_counter {fs : List Field} {l : List State} {m : List (StateId × StateId)}
    {last : StateId} (h : Accepted fs l m last) (hr : Represents g (Digraph.ofStored l m last)) :
    ∀ id, g.hasState id = true → id ≤ g.counter.last := by
  intro id hi
  obtain ⟨s, hs⟩ := Graph.hasState_iff.1 hi
  rw [hr.states, Digraph.states_ofStored] at hs
  have hid : s.id = id := by simpa using List.find?_some hs
  rw [hr.counter, ← hid]
  exact h.le_last s (List.mem_of_find?_eq_some hs)

/-- What the reader does not refuse is accepted. -/
theorem accepted_of_restore {fs : List Field}
    (h : ((restore path fs).run {}).result = .ok ()) : ∃ l m last, Accepted fs l m last := by
  obtain ⟨⟨n, fs₁⟩, hn, h, -⟩ := Action.run_bind_inv h
  rw [state_next] at h
  obtain ⟨fs₂, hstates, h, -⟩ := Action.run_bind_inv h
  obtain ⟨l, hl⟩ := times_of_restoreStates hstates
  obtain ⟨es, hk, hrep⟩ := run_restoreStates path Graph.WF.empty.represents hl
  rw [hk] at h
  obtain ⟨⟨n', fs₃⟩, hn', h, -⟩ := Action.run_bind_inv h
  rw [state_next] at h
  obtain ⟨fs₄, hedges, h, -⟩ := Action.run_bind_inv h
  obtain ⟨m, hm, hends⟩ := times_of_restoreEdges hrep hedges
  obtain ⟨es', hk', hrep'⟩ := run_restoreEdges path hrep hm hends
  rw [hk'] at h
  obtain ⟨⟨last, rest⟩, hlast, h, -⟩ := Action.run_bind_inv h
  rw [state_next] at h
  have hle := le_of_restoreCounter h
  refine ⟨l, m, last, ⟨rest, ?_⟩, fun e he => ?_, fun s hs => ?_⟩
  · have hl' : (read : Reader (List State)).run fs = .ok (l, fs₂) :=
      read_list_eq_ok_iff.2 ⟨n, fs₁, result_next_eq_ok_iff.1 hn, hl⟩
    have hm' : (read : Reader (List (StateId × StateId))).run fs₂ = .ok (m, fs₄) :=
      read_list_eq_ok_iff.2 ⟨n', fs₃, result_next_eq_ok_iff.1 hn', hm⟩
    exact read_pair_eq_ok_iff.2
      ⟨fs₂, hl', read_pair_eq_ok_iff.2 ⟨fs₄, hm', result_next_eq_ok_iff.1 hlast⟩⟩
  · rw [← Digraph.hasState_foldl_add, ← Digraph.hasState_foldl_add]
    exact hends e he
  · refine hle s.id ?_
    rw [hrep'.hasState, Digraph.hasState, Digraph.states_foldl_link]
    exact (Digraph.hasState_foldl_add l s.id).2 ⟨s, hs, rfl⟩

end

/-! ## Files -/

variable {σ : Type} [FileSystem σ]

/-- A file is loaded by restoring its fields into the empty automaton. -/
theorem result_load_eq (path : String) (st : σ) :
    ((load path).run st).result =
      match contents path st with
      | .error e => .error e
      | .ok (.text _) => .error (.unreadable path)
      | .ok (.checkpoint fs _) =>
        ((restore path fs).run {}).result.map fun _ => ((restore path fs).run {}).state := by
  have ho : (Action.ofExcept (contents path st)).run st = ⟨contents path st, st, []⟩ := rfl
  rw [load, Action.run_timed, Action.run_bind_quiet (Action.run_get st)]
  match hs : contents path st with
  | .error e =>
    rw [hs] at ho
    rw [Action.run_bind_failed ho]
  | .ok (.text content) =>
    rw [hs] at ho
    rw [Action.run_bind_quiet ho]
    rfl
  | .ok (.checkpoint fs n) =>
    rw [hs] at ho
    rw [Action.run_bind_quiet ho]
    simp only
    rw [Action.run_bind, Action.run_build]
    cases (restore path fs).run {} with
    | mk result k es => cases result <;> rfl

theorem result_load {path : String} {st : σ} {fs : List Field} {n : Nat} {k : Graph}
    {es : List Event} (hf : contents path st = .ok (.checkpoint fs n))
    (hr : (restore path fs).run {} = ⟨.ok (), k, es⟩) : ((load path).run st).result = .ok k := by
  rw [result_load_eq, hf]
  simp only [hr]
  rfl

/-- An automaton that is loaded comes from fields that are accepted, and is what they say. -/
theorem accepted_of_load {path : String} {st : σ} {g : Graph}
    (h : ((load path).run st).result = .ok g) :
    ∃ fs n l m last, contents path st = .ok (.checkpoint fs n) ∧ Accepted fs l m last ∧
      Represents g (Digraph.ofStored l m last) := by
  rw [result_load_eq] at h
  match hs : contents path st with
  | .error e =>
    rw [hs] at h
    cases h
  | .ok (.text content) =>
    rw [hs] at h
    cases h
  | .ok (.checkpoint fs n) =>
    rw [hs] at h
    simp only at h
    cases hr : ((restore path fs).run {}).result with
    | error e =>
      rw [hr] at h
      cases h
    | ok u =>
      obtain ⟨l, m, last, ha⟩ := accepted_of_restore hr
      obtain ⟨k, es, hk, hrep⟩ := ha.run_restore path
      rw [hk] at h
      cases h
      exact ⟨fs, n, l, m, last, rfl, ha, hrep⟩

/-- Whatever is in a file, an automaton that is loaded from it is well-formed. The file holds some
states, some edges between them and a last id that is not below any of them; the edges of the
automaton are those of the file, the last id is the one of the file, and the vertex of an id is
the first state of the file with that id. -/
theorem wf_of_load {path : String} {st : σ} {g : Graph}
    (h : ((load path).run st).result = .ok g) :
    g.WF ∧ ∃ fs n l m last, contents path st = .ok (.checkpoint fs n) ∧ Accepted fs l m last ∧
      (∀ src dst, g.hasEdge src dst = true ↔ (src, dst) ∈ m) ∧
      (∀ id, g.state? id = l.find? fun s => s.id == id) ∧
      g.counter.last = last ∧ ∀ id, g.hasState id = true → id ≤ g.counter.last := by
  obtain ⟨fs, n, l, m, last, hf, ha, hr⟩ := accepted_of_load h
  refine ⟨hr.wf, fs, n, l, m, last, hf, ha, fun src dst => ?_, fun id => ?_,
    congrArg Counter.last hr.counter, ha.le_counter hr⟩
  · rw [Graph.hasEdge_iff, hr.succs, Digraph.mem_edges_ofStored]
  · rw [hr.states, Digraph.states_ofStored]

/-- Two states out of order, one of them twice with different contents, an edge twice, and a field
after the last id. -/
def disorderly : List Field :=
  write (([{ id := 5 }, { id := 3, isFinal := true }, { id := 3 }], [(5, 3), (3, 3), (5, 3)], 9) :
    List State × List (StateId × StateId) × StateId) ++ write true

/-- A file with these fields. -/
def disorderlyFile : Storage := ⟨({} : Table String Stored).insert "odd" (.checkpoint disorderly 0)⟩

theorem wf_of_load_disorderly :
    ∃ g, ((load "odd").run disorderlyFile).result = .ok g ∧
      g.WF ∧ g.hasState 5 = true ∧ g.hasState 3 = true ∧ g.counter.last = 9 ∧
      (∀ src dst, g.hasEdge src dst = true ↔ (src, dst) ∈ [(5, 3), (3, 3), (5, 3)]) ∧
      (g.state? 3).map State.isFinal = some true := by
  have ha : Accepted disorderly [{ id := 5 }, { id := 3, isFinal := true }, { id := 3 }]
      [(5, 3), (3, 3), (5, 3)] 9 :=
    ⟨⟨_, read_write _ _⟩, by simp, by simp⟩
  obtain ⟨k, es, hk, -⟩ := ha.run_restore "odd"
  have hf : contents "odd" disorderlyFile = .ok (.checkpoint disorderly 0) := rfl
  have hl := result_load hf hk
  obtain ⟨hwf, fs, n, l, m, last, hf', ha', he, hs, hc, -⟩ := wf_of_load hl
  cases hf.symm.trans hf'
  obtain ⟨rest, hr⟩ := ha.read
  obtain ⟨rest', hr'⟩ := ha'.read
  cases hr.symm.trans hr'
  refine ⟨k, hl, hwf, ?_, ?_, hc, he, ?_⟩
  · exact Graph.hasState_iff.2 ⟨{ id := 5 }, hs 5⟩
  · exact Graph.hasState_iff.2 ⟨{ id := 3, isFinal := true }, hs 3⟩
  · rw [hs]
    rfl

end Checkpoint

end FlowAutomaton
