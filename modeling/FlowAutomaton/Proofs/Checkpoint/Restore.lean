/-
What the reader of checkpoints makes of the fields it takes. It rebuilds an automaton by adding the
states and then the edges, one after the other, so it leaves what these updates leave (`replay`),
with the counter that comes last.
-/
import FlowAutomaton.Checkpoint.File
import FlowAutomaton.Proofs.Checkpoint.Lawful
import FlowAutomaton.Proofs.Graph.Invariant
import FlowAutomaton.Proofs.Graph.Listing

namespace FlowAutomaton

/-! ## Plain graphs built one by one -/

namespace Digraph

/-- With an edge, given as a pair. -/
def linkPair (d : Digraph) (e : StateId × StateId) : Digraph := d.link e.1 e.2

theorem states_add (d : Digraph) (s : State) (k : StateId) :
    (d.add s).states k = (d.states k).or (if s.id = k then some s else none) := by
  rw [add]
  split
  · rename_i h
    by_cases hk : s.id = k
    · obtain ⟨t, ht⟩ := Option.isSome_iff_exists.1 h
      rw [← hk, ht]
      rfl
    · rw [if_neg hk, Option.or_none]
  · rename_i h
    show (d.insert s).states k = _
    rw [states_insert]
    by_cases hk : s.id = k
    · have hn : d.states k = none := by simpa [hasState, hk] using h
      rw [if_pos hk.symm, if_pos hk, hn]
      rfl
    · rw [if_neg (Ne.symm hk), if_neg hk, Option.or_none]

theorem edges_add (d : Digraph) (s : State) : (d.add s).edges = d.edges := by
  rw [add]
  split <;> rfl

/-- Of the states that are added under one id the first counts, unless there was one before. -/
theorem states_foldl_add (l : List State) (d : Digraph) (k : StateId) :
    (l.foldl add d).states k = (d.states k).or (l.find? fun s => s.id == k) := by
  induction l generalizing d with
  | nil => exact (Option.or_none).symm
  | cons s l ih =>
    rw [List.foldl_cons, ih, states_add, Option.or_assoc, List.find?_cons]
    by_cases hk : s.id = k
    · rw [if_pos hk, beq_iff_eq.2 hk]
      rfl
    · rw [if_neg hk, beq_eq_false_iff_ne.2 hk]
      rfl

theorem edges_foldl_add (l : List State) (d : Digraph) : (l.foldl add d).edges = d.edges :=
  Graph.foldl_frame edges edges_add l d

theorem states_linkPair (d : Digraph) (e : StateId × StateId) : (d.linkPair e).states = d.states := rfl

theorem states_foldl_link (l : List (StateId × StateId)) (d : Digraph) :
    (l.foldl linkPair d).states = d.states :=
  Graph.foldl_frame states states_linkPair l d

/-- Edges that are added one by one are there in the end, beside those that were there before. -/
theorem mem_edges_foldl_link (l : List (StateId × StateId)) (d : Digraph) (e : StateId × StateId) :
    e ∈ (l.foldl linkPair d).edges ↔ e ∈ d.edges ∨ e ∈ l := by
  induction l generalizing d with
  | nil => simp
  | cons f l ih =>
    rw [List.foldl_cons, ih, linkPair, link, Set.mem_insert_iff, List.mem_cons]
    tauto

end Digraph

namespace Checkpoint

open FlowAutomaton.Graph (Represents)

/-! ## Readers -/

theorem Reader.bind_eq_ok_iff {α β : Type} {r : Reader α} {f : α → Reader β} {fs rest : List Field}
    {b : β} :
    (r >>= f).run fs = .ok (b, rest) ↔
      ∃ a fs', r.run fs = .ok (a, fs') ∧ (f a).run fs' = .ok (b, rest) := by
  constructor
  · intro h
    rw [StateT.run_bind] at h
    match hr : r.run fs with
    | .error e => rw [hr] at h; cases h
    | .ok (a, fs') =>
      rw [hr] at h
      exact ⟨a, fs', rfl, h⟩
  · rintro ⟨a, fs', hr, hf⟩
    rw [Reader.run_bind_of_ok hr, hf]

/-- One value more is read in front of the others. -/
theorem Reader.times_succ_eq_ok_iff {α : Type} {r : Reader α} {n : Nat} {fs rest : List Field}
    {l : List α} :
    (Reader.times r (n + 1)).run fs = .ok (l, rest) ↔
      ∃ a l' fs', r.run fs = .ok (a, fs') ∧ (Reader.times r n).run fs' = .ok (l', rest) ∧
        l = a :: l' := by
  constructor
  · intro h
    obtain ⟨a, fs', hr, h⟩ := Reader.bind_eq_ok_iff.1 h
    obtain ⟨l', _, hl, h⟩ := Reader.bind_eq_ok_iff.1 h
    cases h
    exact ⟨a, l', fs', hr, hl, rfl⟩
  · rintro ⟨a, l', fs', hr, hl, rfl⟩
    rw [Reader.times, Reader.run_bind_of_ok hr, Reader.run_bind_of_ok hl]
    rfl

theorem read_pair_eq_ok_iff {α β : Type} [Storable α] [Storable β] {fs rest : List Field} {a : α}
    {b : β} :
    (read : Reader (α × β)).run fs = .ok ((a, b), rest) ↔
      ∃ fs', (read : Reader α).run fs = .ok (a, fs') ∧ (read : Reader β).run fs' = .ok (b, rest) := by
  constructor
  · intro h
    obtain ⟨a', fs', ha, h⟩ := Reader.bind_eq_ok_iff.1 h
    obtain ⟨b', _, hb, h⟩ := Reader.bind_eq_ok_iff.1 h
    cases h
    exact ⟨fs', ha, hb⟩
  · rintro ⟨fs', ha, hb⟩
    refine (Reader.run_bind_of_ok ha _).trans ?_
    rw [Reader.run_bind_of_ok hb]
    rfl

/-- A list is a number, and then as many values. -/
theorem read_list_eq_ok_iff {α : Type} [Storable α] {fs rest : List Field} {l : List α} :
    (read : Reader (List α)).run fs = .ok (l, rest) ↔
      ∃ n fs', (read : Reader Nat).run fs = .ok (n, fs') ∧
        (Reader.times read n).run fs' = .ok (l, rest) :=
  Reader.bind_eq_ok_iff

theorem run_next_of_ok {α : Type} [Storable α] {path : String} {g : Graph} {fs : List Field}
    {r : α × List Field} (h : (read : Reader α).run fs = .ok r) :
    (next path α fs).run g = ⟨.ok r, g, []⟩ := by
  rw [next, h]
  rfl

/-! ## Restoring -/

/-- The update that adds an edge, given as a pair. -/
def linkPair (e : StateId × StateId) : Graph.Update := .link e.1 e.2

/-- The updates that make an automaton from what a checkpoint holds. -/
def replay (l : List State) (m : List (StateId × StateId)) (last : StateId) : List Graph.Update :=
  l.map .add ++ m.map linkPair ++ [.reset last]

/-- A replay adds the states first, then the edges, and sets the counter last. -/
theorem afterAll_replay (g : Graph) (l : List State) (m : List (StateId × StateId))
    (last : StateId) :
    g.afterAll (replay l m last) =
      ((g.afterAll (l.map .add)).afterAll (m.map linkPair)).withCounter ⟨last⟩ := by
  rw [replay, Graph.afterAll, List.foldl_append, List.foldl_append]
  rfl

section

variable (path : String) {g : Graph} {d : Digraph}

/-- Reading some states adds them in their order. -/
theorem run_restoreStates {n : Nat} {fs rest : List Field} {l : List State} (h : Represents g d)
    (hr : (Reader.times read n).run fs = .ok (l, rest)) :
    ∃ es, (restoreStates path n fs).run g = ⟨.ok rest, g.afterAll (l.map .add), es⟩ ∧
      Represents (g.afterAll (l.map .add)) (l.foldl Digraph.add d) := by
  induction n generalizing g d fs l with
  | zero =>
    cases hr
    exact ⟨[], rfl, h⟩
  | succ n ih =>
    obtain ⟨s, l', fs', hs, hl, rfl⟩ := Reader.times_succ_eq_ok_iff.1 hr
    obtain ⟨es, hk, hrep⟩ := ih (h.after (.add s)) hl
    refine ⟨((Graph.add s).run g).events ++ es, ?_, hrep⟩
    have hadd : ((Graph.add s).run g).state = g.after (.add s) := by
      rw [Graph.after, Graph.Update.action, Action.run_map]
    rw [restoreStates, Action.run_bind_quiet (run_next_of_ok hs),
      Action.run_bind_ok (Graph.result_add g s), hadd, hk]
    rfl

theorem run_restoreEdge (h : Represents g d) {e : StateId × StateId} (hs : d.hasState e.1 = true)
    (ht : d.hasState e.2 = true) :
    ∃ es, (restoreEdge path e).run g = ⟨.ok (), g.after (linkPair e), es⟩ ∧
      Represents (g.after (linkPair e)) (d.linkPair e) := by
  have hs' := (h.hasState e.1).trans hs
  have ht' := (h.hasState e.2).trans ht
  obtain ⟨v, hv⟩ := Graph.find?_of_hasState hs'
  obtain ⟨w, hw⟩ := Graph.find?_of_hasState ht'
  have hr : (restoreEdge path e).run g = (Graph.link e.1 e.2).run g := by
    rw [restoreEdge, Action.run_bind_quiet (Action.run_get g), hs', ht']
    rfl
  have hk : g.after (linkPair e) = g.withEdge e.1 e.2 := h.wf.after_link hs' ht'
  rw [hk]
  exact ⟨_, hr.trans (h.wf.run_link hv hw), h.withEdge hs ht⟩

/-- Reading some edges adds them in their order, if their ends are vertices. -/
theorem run_restoreEdges {n : Nat} {fs rest : List Field} {l : List (StateId × StateId)}
    (h : Represents g d) (hr : (Reader.times read n).run fs = .ok (l, rest))
    (he : ∀ e ∈ l, d.hasState e.1 = true ∧ d.hasState e.2 = true) :
    ∃ es, (restoreEdges path n fs).run g = ⟨.ok rest, g.afterAll (l.map linkPair), es⟩ ∧
      Represents (g.afterAll (l.map linkPair)) (l.foldl Digraph.linkPair d) := by
  induction n generalizing g d fs l with
  | zero =>
    cases hr
    exact ⟨[], rfl, h⟩
  | succ n ih =>
    obtain ⟨e, l', fs', hs, hl, rfl⟩ := Reader.times_succ_eq_ok_iff.1 hr
    obtain ⟨hends, hrest⟩ := List.forall_mem_cons.1 he
    obtain ⟨es', ha, hrep'⟩ := run_restoreEdge path h hends.1 hends.2
    obtain ⟨es, hk, hrep⟩ := ih hrep' hl hrest
    refine ⟨es' ++ es, ?_, hrep⟩
    rw [restoreEdges, Action.run_bind_quiet (run_next_of_ok hs), Action.run_bind_of_ok ha, hk]
    rfl

/-- A counter that is not below any vertex is taken over. -/
theorem run_restoreCounter (h : Represents g d) {last : StateId}
    (hl : ∀ id, d.hasState id = true → id ≤ last) :
    (restoreCounter path last).run g = ⟨.ok (), g.withCounter ⟨last⟩, []⟩ := by
  unfold restoreCounter
  rw [Action.run_bind_quiet (Action.run_get g)]
  cases hi : g.ids.getLast? with
  | none => rfl
  | some greatest =>
    -- the greatest id is that of a vertex, so the counter is not below it
    have hm := g.mem_ids.1 (List.mem_of_getLast? hi)
    have hle : greatest ≤ last := hl greatest ((h.hasState greatest).symm.trans hm)
    simp only [if_neg (UInt64.not_lt.2 hle)]
    rfl

/-- The fields that are read as some states, some edges and a counter make an automaton, unless an
edge has an end that is no state or the counter is below a state. It is the one that is made by
adding the states and the edges in their order. -/
theorem run_restore (h : Represents g d) {fs rest : List Field} {l : List State}
    {m : List (StateId × StateId)} {last : StateId}
    (hr : (read : Reader (List State × List (StateId × StateId) × StateId)).run fs =
      .ok ((l, m, last), rest))
    (he : ∀ e ∈ m, (l.foldl Digraph.add d).hasState e.1 = true ∧
      (l.foldl Digraph.add d).hasState e.2 = true)
    (hl : ∀ id, (l.foldl Digraph.add d).hasState id = true → id ≤ last) :
    ∃ es, (restore path fs).run g = ⟨.ok (), g.afterAll (replay l m last), es⟩ ∧
      Represents (g.afterAll (replay l m last))
        { m.foldl Digraph.linkPair (l.foldl Digraph.add d) with counter := ⟨last⟩ } := by
  -- the three parts one after the other, each list with its length in front
  obtain ⟨fs₁, hstates, hr⟩ := read_pair_eq_ok_iff.1 hr
  obtain ⟨fs₂, hedges, hlast⟩ := read_pair_eq_ok_iff.1 hr
  obtain ⟨n, _, hn, hstates⟩ := read_list_eq_ok_iff.1 hstates
  obtain ⟨n', _, hn', hedges⟩ := read_list_eq_ok_iff.1 hedges
  obtain ⟨es₁, hk₁, h₁⟩ := run_restoreStates path h hstates
  obtain ⟨es₂, hk₂, h₂⟩ := run_restoreEdges path h₁ hedges he
  have hl₂ : ∀ id, (m.foldl Digraph.linkPair (l.foldl Digraph.add d)).hasState id = true →
      id ≤ last := by
    intro id hi
    rw [Digraph.hasState, Digraph.states_foldl_link] at hi
    exact hl id hi
  rw [afterAll_replay]
  refine ⟨es₁ ++ es₂, ?_, h₂.withCounter ⟨last⟩⟩
  rw [restore, Action.run_bind_quiet (run_next_of_ok hn), Action.run_bind_of_ok hk₁,
    Action.run_bind_quiet (run_next_of_ok hn'), Action.run_bind_of_ok hk₂,
    Action.run_bind_quiet (run_next_of_ok hlast), run_restoreCounter path h₂ hl₂, List.append_nil]

end

end Checkpoint

end FlowAutomaton
