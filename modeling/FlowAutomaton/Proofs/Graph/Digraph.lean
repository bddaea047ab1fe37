/-
Plain directed graphs, and automata as such graphs. A plain graph has the states under their ids
and a set of edges; an automaton keeps each edge twice, once at either end. `Represents` says that
an automaton and a plain graph are the same, and `WF` that an automaton is one at all: its two
lists of an edge agree, no edge is listed twice, and no edge has an end without a vertex.
-/
import FlowAutomaton.Proofs.Graph.Call
import FlowAutomaton.Proofs.Graph.Outcome
import Mathlib.Data.Set.Insert
import Mathlib.Logic.Function.Basic

namespace FlowAutomaton

/-! ## Plain graphs -/

/-- A plain directed graph of states, and the counter that numbers new ones. -/
@[ext]
structure Digraph where
  states : StateId → Option State
  edges : Set (StateId × StateId)
  counter : Counter

namespace Digraph

variable (d : Digraph)

/-- Whether an id is that of a vertex. -/
def hasState (id : StateId) : Bool := (d.states id).isSome

/-- With a state as the vertex of its id. -/
def insert (s : State) : Digraph := { d with states := Function.update d.states s.id (some s) }

/-- With a copy of a state, unless its id is that of a vertex. -/
def add (s : State) : Digraph :=
  if d.hasState s.id then d else { d.insert s with counter := d.counter.observe s.id }

/-- Without a vertex and every edge at it. -/
def remove (id : StateId) : Digraph :=
  { d with
    states := Function.update d.states id none
    edges := { e ∈ d.edges | e.1 ≠ id ∧ e.2 ≠ id } }

/-- With an edge. -/
def link (src dst : StateId) : Digraph := { d with edges := Insert.insert (src, dst) d.edges }

/-- Without an edge. -/
def unlink (src dst : StateId) : Digraph := { d with edges := d.edges \ {(src, dst)} }

/-- The state that is made when a state is copied. -/
def copyOf (s : State) : State := { s with id := d.counter.next }

/-- With the next id used up, and a copy of a state under it unless it is that of a vertex. -/
def duplicate (s : State) : Digraph :=
  if d.hasState d.counter.next then { d with counter := d.counter.advance }
  else { d.insert (d.copyOf s) with counter := d.counter.advance }

/-- With the state of a vertex changed. -/
def change (id : StateId) (c : State.Change) : Digraph :=
  { d with states := Function.update d.states id ((d.states id).map (·.change c)) }

/-- No id is that of a vertex. -/
def Empty : Prop := ∀ id, d.states id = none

open Classical in
/-- With the state where an analysis starts, where there is no vertex and the configuration has an
initial value. -/
noncomputable def start (ip : Address) (c : Configuration) : Digraph :=
  if d.Empty then
    match InitialValue.value c with
    | .ok value => { d.insert (Graph.rootState ip c value) with counter := {} }
    | .error _ => d
  else d

/-- What an update makes of a plain graph. -/
noncomputable def after : Graph.Update → Digraph
  | .start ip c => d.start ip c
  | .add s => d.add s
  | .remove s => d.remove s.id
  | .link src dst => if d.hasState src && d.hasState dst then d.link src dst else d
  | .unlink src dst => d.unlink src.id dst.id
  | .duplicate s => d.duplicate s
  | .change id c => d.change id c
  | .issue => { d with counter := d.counter.advance }
  | .observe id => { d with counter := d.counter.observe id }
  | .reset last => { d with counter := ⟨last⟩ }

/-- What a call makes of a plain graph; a question makes nothing of it. -/
noncomputable def afterCall : Graph.Call → Digraph
  | .update u => d.after u
  | .query _ => d

/-- The states after each operation: what happens at its own id, and that nothing happens at the
others. -/
theorem states_insert (s : State) (id : StateId) :
    (d.insert s).states id = if id = s.id then some s else d.states id :=
  Function.update_apply d.states s.id (some s) id

theorem states_remove (id k : StateId) :
    (d.remove id).states k = if k = id then none else d.states k :=
  Function.update_apply d.states id none k

theorem states_change (id : StateId) (c : State.Change) (k : StateId) :
    (d.change id c).states k = if k = id then (d.states id).map (·.change c) else d.states k :=
  Function.update_apply d.states id _ k

/-- The edges after each operation. -/
theorem mem_edges_link {src dst u w : StateId} :
    (u, w) ∈ (d.link src dst).edges ↔ (u, w) ∈ d.edges ∨ (u = src ∧ w = dst) := by
  rw [link, Set.mem_insert_iff, Prod.mk.injEq, or_comm]

theorem mem_edges_unlink {src dst u w : StateId} :
    (u, w) ∈ (d.unlink src dst).edges ↔ (u, w) ∈ d.edges ∧ ¬(u = src ∧ w = dst) := by
  rw [unlink, Set.mem_sdiff, Set.mem_singleton_iff, Prod.mk.injEq]

theorem mem_edges_remove {id u w : StateId} :
    (u, w) ∈ (d.remove id).edges ↔ (u, w) ∈ d.edges ∧ u ≠ id ∧ w ≠ id := Iff.rfl

end Digraph

namespace Graph

/-- The plain graph of an automaton, with the edges as their sources list them. -/
def view (g : Graph) : Digraph where
  states := g.state?
  edges := { e | e.2 ∈ g.succIds e.1 }
  counter := g.counter

/-! ## Well-formed automata -/

/-- What holds of the vertices of an automaton at any time. -/
structure WF (g : Graph) : Prop where
  /-- A vertex is stored under the id of its state. -/
  id_eq : ∀ id s, g.state? id = some s → s.id = id
  succs_nodup : ∀ id, (g.succIds id).Nodup
  preds_nodup : ∀ id, (g.predIds id).Nodup
  /-- An edge leads to a vertex. -/
  succs_closed : ∀ u, ∀ w ∈ g.succIds u, g.hasState w = true
  /-- An edge comes from a vertex. -/
  preds_closed : ∀ w, ∀ u ∈ g.predIds w, g.hasState u = true
  /-- Both ends of an edge list it. -/
  symm : ∀ u w, w ∈ g.succIds u ↔ u ∈ g.predIds w

namespace WF

variable {g : Graph} (h : g.WF)

include h

theorem id_of_find {id : StateId} {v : Vertex} (hv : g.vertices.find? id = some v) :
    v.state.id = id :=
  h.id_eq id v.state (state?_of_find hv)

/-- In a well-formed automaton, the ends of an edge are vertices under their own ids. -/
theorem run_link {src dst : StateId} {s d : Vertex} (hs : g.vertices.find? src = some s)
    (hd : g.vertices.find? dst = some d) :
    (link src dst).run g =
      ⟨.ok (), g.withEdge src dst,
        [.count "CFA.add_successor",
          .log "cfa" ("add edge " ++ s.state.label ++ " -> " ++ d.state.label ++ "\n")]⟩ :=
  run_link_of_present hs hd (h.id_of_find hs) (h.id_of_find hd)

/-- In a well-formed automaton, all neighbours of a vertex are there when it is removed. -/
theorem run_remove {s : State} {v : Vertex} (hv : g.vertices.find? s.id = some v) :
    (remove s).run g =
      ⟨.ok (), g.withoutVertex v,
        [.count "CFA.remove_state", .log "cfa" ("remove " ++ s.label ++ "\n")]⟩ := by
  have hp := h.preds_closed s.id
  have hn := h.succs_closed s.id
  rw [predIds_of_find hv] at hp
  rw [succIds_of_find hv] at hn
  exact run_remove_of_present hv (h.id_of_find hv) hp hn

/-- Removing never fails. -/
theorem result_remove (s : State) : ((Graph.remove s).run g).result = .ok () := by
  cases hs : g.hasState s.id with
  | true =>
    obtain ⟨v, hv⟩ := find?_of_hasState hs
    rw [h.run_remove hv]
  | false => rw [run_remove_of_absent hs]

theorem result_link {src dst : StateId} (hs : g.hasState src = true)
    (hd : g.hasState dst = true) : ((link src dst).run g).result = .ok () := by
  obtain ⟨v, hv⟩ := find?_of_hasState hs
  obtain ⟨w, hw⟩ := find?_of_hasState hd
  rw [h.run_link hv hw]

theorem after_link {src dst : StateId} (hs : g.hasState src = true) (hd : g.hasState dst = true) :
    g.after (.link src dst) = g.withEdge src dst := by
  obtain ⟨v, hv⟩ := find?_of_hasState hs
  obtain ⟨w, hw⟩ := find?_of_hasState hd
  rw [Graph.after, Update.action, Action.run_map, h.run_link hv hw]

end WF

/-- Automata with the same lists of neighbours are well-formed alike, if each vertex is stored
under the id of its state. -/
theorem WF.of_same_lists {g k : Graph} (h : g.WF) (hid : ∀ u s, k.state? u = some s → s.id = u)
    (hstate : ∀ u, k.hasState u = g.hasState u) (hsucc : ∀ u, k.succIds u = g.succIds u)
    (hpred : ∀ u, k.predIds u = g.predIds u) : k.WF := by
  refine ⟨hid, fun u => ?_, fun u => ?_, fun u w hw => ?_, fun w u hu => ?_, fun u w => ?_⟩
  · rw [hsucc]
    exact h.succs_nodup u
  · rw [hpred]
    exact h.preds_nodup u
  · rw [hstate]
    exact h.succs_closed u w (hsucc u ▸ hw)
  · rw [hstate]
    exact h.preds_closed w u (hpred w ▸ hu)
  · rw [hsucc, hpred]
    exact h.symm u w

/-- An automaton that is a plain graph, and a plain graph that it is. -/
structure Represents (g : Graph) (d : Digraph) : Prop where
  id_eq : ∀ id s, d.states id = some s → s.id = id
  states : ∀ id, g.state? id = d.states id
  succs : ∀ u w, w ∈ g.succIds u ↔ (u, w) ∈ d.edges
  preds : ∀ u w, u ∈ g.predIds w ↔ (u, w) ∈ d.edges
  succs_nodup : ∀ id, (g.succIds id).Nodup
  preds_nodup : ∀ id, (g.predIds id).Nodup
  counter : g.counter = d.counter

/-- An automaton is one plain graph only, its view. -/
theorem Represents.view_eq {g : Graph} {d : Digraph} (h : Represents g d) : g.view = d := by
  refine Digraph.ext (funext h.states) ?_ h.counter
  ext ⟨u, w⟩
  exact h.succs u w

/-- What is a plain graph is well-formed. -/
theorem Represents.wf {g : Graph} {d : Digraph} (h : Represents g d) : g.WF where
  id_eq id s hs := h.id_eq id s (by rw [← h.states]; exact hs)
  succs_nodup := h.succs_nodup
  preds_nodup := h.preds_nodup
  succs_closed u w hw := hasState_of_mem_predIds ((h.preds u w).2 ((h.succs u w).1 hw))
  preds_closed w u hu := hasState_of_mem_succIds ((h.succs u w).2 ((h.preds u w).1 hu))
  symm u w := (h.succs u w).trans (h.preds u w).symm

/-- A well-formed automaton is the plain graph that its view says. -/
theorem WF.represents {g : Graph} (h : g.WF) : Represents g g.view where
  id_eq := h.id_eq
  states _ := rfl
  succs _ _ := Iff.rfl
  preds u w := (h.symm u w).symm
  succs_nodup := h.succs_nodup
  preds_nodup := h.preds_nodup
  counter := rfl

/-! ## Single steps -/

namespace Represents

variable {g : Graph} {d : Digraph}

theorem hasState (h : Represents g d) (id : StateId) : g.hasState id = d.hasState id := by
  rw [Bool.eq_iff_iff, hasState_iff, Digraph.hasState, ← h.states, Option.isSome_iff_exists]

theorem withCounter (h : Represents g d) (c : Counter) :
    Represents (g.withCounter c) { d with counter := c } :=
  ⟨h.id_eq, h.states, h.succs, h.preds, h.succs_nodup, h.preds_nodup, rfl⟩

/-- Storing a vertex under a new id stores it in the plain graph. -/
theorem withState (h : Represents g d) {s : State} (hs : d.hasState s.id = false) :
    Represents (g.withState s) (d.insert s) := by
  rw [← h.hasState] at hs
  refine ⟨fun id t ht => ?_, fun id => ?_, fun u w => ?_, fun u w => ?_, fun id => ?_, fun id => ?_,
    h.counter⟩
  · rw [Digraph.states_insert] at ht
    split at ht
    · rename_i hi
      cases ht
      exact hi.symm
    · exact h.id_eq id t ht
  · rw [state?_withState id hs, h.states, Digraph.states_insert]
  · rw [succIds_withState u hs]
    exact h.succs u w
  · rw [predIds_withState w hs]
    exact h.preds u w
  · rw [succIds_withState id hs]
    exact h.succs_nodup id
  · rw [predIds_withState id hs]
    exact h.preds_nodup id

/-- Putting an edge into both lists puts it into the plain graph. -/
theorem withEdge (h : Represents g d) {src dst : StateId} (hs : d.hasState src = true)
    (hd : d.hasState dst = true) : Represents (g.withEdge src dst) (d.link src dst) := by
  rw [← h.hasState] at hs hd
  refine ⟨h.id_eq, fun id => by rw [state?_withEdge]; exact h.states id, fun u w => ?_, fun u w => ?_,
    fun id => ?_, fun id => ?_, h.counter⟩
  · rw [succIds_withEdge u hs, mem_insertAt, Digraph.mem_edges_link, h.succs]
  · rw [predIds_withEdge w src hd, mem_insertAt, Digraph.mem_edges_link, h.preds, and_comm]
  · rw [succIds_withEdge id hs]
    exact nodup_insertAt h.succs_nodup
  · rw [predIds_withEdge id src hd]
    exact nodup_insertAt h.preds_nodup

/-- Taking an edge out of both lists takes it out of the plain graph. -/
theorem withoutEdge (h : Represents g d) (src dst : StateId) :
    Represents (g.withoutEdge src dst) (d.unlink src dst) := by
  refine ⟨h.id_eq, fun id => by rw [state?_withoutEdge]; exact h.states id, fun u w => ?_,
    fun u w => ?_, fun id => ?_, fun id => ?_, h.counter⟩
  · rw [succIds_withoutEdge, mem_removeAt, Digraph.mem_edges_unlink, h.succs]
  · rw [predIds_withoutEdge, mem_removeAt, Digraph.mem_edges_unlink, h.preds, and_comm (a := w = dst)]
  · rw [succIds_withoutEdge]
    exact nodup_removeAt h.succs_nodup
  · rw [predIds_withoutEdge]
    exact nodup_removeAt h.preds_nodup

/-- Removing a vertex and taking it out of the lists of its neighbours removes it and every edge at
it from the plain graph. The neighbours that list the vertex are the ones that it lists, as both
ends of an edge list it. -/
theorem withoutVertex (h : Represents g d) {id : StateId} {v : Vertex}
    (hv : g.vertices.find? id = some v) : Represents (g.withoutVertex v) (d.remove id) := by
  have hi : v.state.id = id := h.id_eq id v.state (by rw [← h.states]; exact state?_of_find hv)
  -- each neighbour that lists the vertex is in one of the two lists of the vertex
  have hs : ∀ k, id ∈ g.succIds k → k ∈ v.preds := fun k hk => by
    rw [← predIds_of_find hv]
    exact (h.preds k id).2 ((h.succs k id).1 hk)
  have hp : ∀ k, id ∈ g.predIds k → k ∈ v.succs := fun k hk => by
    rw [← succIds_of_find hv]
    exact (h.succs id k).2 ((h.preds id k).1 hk)
  have succs : ∀ k, (g.withoutVertex v).succIds k =
      if k = id then [] else removeAdjacent (g.succIds k) id := fun k => by
    rw [succIds_withoutVertex, hi]
    by_cases hk : k ∈ v.preds
    · rw [if_pos hk]
    · rw [if_neg hk, removeAdjacent_of_notMem fun hm => hk (hs k hm)]
  have preds : ∀ k, (g.withoutVertex v).predIds k =
      if k = id then [] else removeAdjacent (g.predIds k) id := fun k => by
    rw [predIds_withoutVertex, hi]
    by_cases hk : k ∈ v.succs
    · rw [if_pos hk]
    · rw [if_neg hk, removeAdjacent_of_notMem fun hm => hk (hp k hm)]
  refine ⟨fun k s hk => ?_, fun k => ?_, fun u w => ?_, fun u w => ?_, fun k => ?_, fun k => ?_, ?_⟩
  · rw [Digraph.states_remove] at hk
    split at hk
    · cases hk
    · exact h.id_eq k s hk
  · rw [state?_withoutVertex, hi, h.states, Digraph.states_remove]
  · rw [succs, Digraph.mem_edges_remove, ← h.succs]
    split
    · rename_i hu
      simp [hu]
    · rw [mem_removeAdjacent]
      tauto
  · rw [preds, Digraph.mem_edges_remove, ← h.preds]
    split
    · rename_i hw
      simp [hw]
    · rw [mem_removeAdjacent]
      tauto
  · rw [succs]
    split
    exacts [List.nodup_nil, nodup_removeAdjacent (h.succs_nodup k) _]
  · rw [preds]
    split
    exacts [List.nodup_nil, nodup_removeAdjacent (h.preds_nodup k) _]
  · exact (counter_withoutVertex g v).trans h.counter

/-- Changing a state in place leaves the edges alone. -/
theorem mapState (h : Represents g d) (id : StateId) (c : State.Change) :
    Represents (g.mapState id (·.change c)) (d.change id c) := by
  refine ⟨fun k s hk => ?_, fun k => ?_, fun u w => ?_, fun u w => ?_, fun k => ?_, fun k => ?_,
    h.counter⟩
  · rw [Digraph.states_change] at hk
    split at hk
    · rename_i hi
      obtain ⟨t, ht, rfl⟩ := Option.map_eq_some_iff.1 hk
      rw [State.id_change, hi]
      exact h.id_eq id t ht
    · exact h.id_eq k s hk
  · rw [state?_mapState, h.states, h.states, Digraph.states_change]
  · rw [succIds_mapState]
    exact h.succs u w
  · rw [predIds_mapState]
    exact h.preds u w
  · rw [succIds_mapState]
    exact h.succs_nodup k
  · rw [predIds_mapState]
    exact h.preds_nodup k

/-! ## Calls that change nothing -/

/-- Both ends of an edge are vertices. -/
theorem edge_ends (h : Represents g d) {u w : StateId} (he : (u, w) ∈ d.edges) :
    d.hasState u = true ∧ d.hasState w = true := by
  rw [← h.hasState, ← h.hasState]
  exact ⟨hasState_of_mem_succIds ((h.succs u w).2 he), hasState_of_mem_predIds ((h.preds u w).2 he)⟩

/-- Where the vertex is missing, no edge is left at it, so removing it changes nothing. -/
theorem remove_of_absent (h : Represents g d) {id : StateId} (hi : d.hasState id = false) :
    d.remove id = d := by
  have hs : d.states id = none := by simpa [Digraph.hasState] using hi
  refine Digraph.ext (funext fun k => ?_) (Set.ext fun ⟨u, w⟩ => ?_) rfl
  · rw [Digraph.states_remove]
    split
    · rename_i hk
      rw [hk, hs]
    · rfl
  · rw [Digraph.mem_edges_remove]
    constructor
    · exact And.left
    · intro he
      obtain ⟨hu, hw⟩ := h.edge_ends he
      refine ⟨he, ?_, ?_⟩
      · rintro rfl
        rw [hi] at hu; cases hu
      · rintro rfl
        rw [hi] at hw; cases hw

theorem unlink_of_absent (h : Represents g d) {src dst : StateId}
    (hi : d.hasState src = false ∨ d.hasState dst = false) : d.unlink src dst = d := by
  refine Digraph.ext rfl (Set.ext fun ⟨u, w⟩ => ?_) rfl
  rw [Digraph.mem_edges_unlink]
  constructor
  · exact And.left
  · intro he
    obtain ⟨hu, hw⟩ := h.edge_ends he
    refine ⟨he, ?_⟩
    rintro ⟨rfl, rfl⟩
    rcases hi with hi | hi
    · rw [hi] at hu; cases hu
    · rw [hi] at hw; cases hw

theorem change_of_absent {id : StateId} (hi : d.hasState id = false) (c : State.Change) :
    d.change id c = d := by
  have hs : d.states id = none := by simpa [Digraph.hasState] using hi
  refine Digraph.ext (funext fun k => ?_) rfl rfl
  rw [Digraph.states_change]
  split
  · rename_i hk
    rw [hk, hs]; rfl
  · rfl

/-! ## Every update -/

/-- An automaton without vertices is an empty plain graph. -/
theorem size_eq_zero_iff (h : Represents g d) : g.size = 0 ↔ d.Empty := by
  have hk : g.size = 0 ↔ g.vertices.keys = [] := by
    rw [size, Vertices.size, Vertices.keys, List.map_eq_nil_iff, List.length_eq_zero_iff]
  rw [hk, List.eq_nil_iff_forall_not_mem]
  refine forall_congr' fun id => ?_
  rw [← h.states, state?_eq_none_iff, Vertices.find?_eq_none_iff]

/-- A start of an automaton is a start of its plain graph, whether it is made or refused. -/
theorem start (h : Represents g d) (ip : Address) (c : Configuration) :
    Represents ((Graph.start ip c).run g).state (d.start ip c) := by
  by_cases hz : g.size = 0
  · rw [Digraph.start, if_pos (h.size_eq_zero_iff.1 hz)]
    cases hv : InitialValue.value c with
    | error e =>
      rw [run_start_of_fault hz ip hv]
      exact h
    | ok value =>
      rw [run_start_of_value hz ip hv]
      refine (h.withCounter {}).withState ?_
      rw [Digraph.hasState, h.size_eq_zero_iff.1 hz]
      rfl
  · rw [run_start_of_nonempty hz, Digraph.start, if_neg fun ha => hz (h.size_eq_zero_iff.2 ha)]
    exact h

theorem add (h : Represents g d) (s : State) :
    Represents ((Graph.add s).run g).state (d.add s) := by
  have hs := h.hasState s.id
  rw [Digraph.add, ← h.counter]
  cases hd : d.hasState s.id with
  | true =>
    obtain ⟨v, hv⟩ := find?_of_hasState (hs.trans hd)
    rw [run_add_of_present hv]
    exact h
  | false =>
    rw [run_add_of_absent (hs.trans hd)]
    exact (h.withCounter (g.counter.observe s.id)).withState hd

theorem remove (h : Represents g d) (s : State) :
    Represents ((Graph.remove s).run g).state (d.remove s.id) := by
  have hs := h.hasState s.id
  cases hd : d.hasState s.id with
  | true =>
    obtain ⟨v, hv⟩ := find?_of_hasState (hs.trans hd)
    rw [h.wf.run_remove hv]
    exact h.withoutVertex hv
  | false =>
    rw [run_remove_of_absent (hs.trans hd), h.remove_of_absent hd]
    exact h

theorem link (h : Represents g d) (src dst : StateId) :
    Represents ((Graph.link src dst).run g).state
      (if d.hasState src && d.hasState dst then d.link src dst else d) := by
  have hs := h.hasState src
  have ht := h.hasState dst
  cases hd : d.hasState src with
  | false =>
    rw [run_link_of_absent_source (hs.trans hd)]
    exact h
  | true =>
    cases he : d.hasState dst with
    | false =>
      rw [run_link_of_absent_target (hs.trans hd) (ht.trans he)]
      exact h
    | true =>
      obtain ⟨v, hv⟩ := find?_of_hasState (hs.trans hd)
      obtain ⟨w, hw⟩ := find?_of_hasState (ht.trans he)
      rw [h.wf.run_link hv hw]
      exact h.withEdge hd he

theorem unlink (h : Represents g d) (src dst : State) :
    Represents ((Graph.unlink src dst).run g).state (d.unlink src.id dst.id) := by
  have hs := h.hasState src.id
  have ht := h.hasState dst.id
  cases hd : d.hasState src.id with
  | false =>
    rw [run_unlink_of_absent (.inl (hs.trans hd)), h.unlink_of_absent (.inl hd)]
    exact h
  | true =>
    cases he : d.hasState dst.id with
    | false =>
      rw [run_unlink_of_absent (.inr (ht.trans he)), h.unlink_of_absent (.inr he)]
      exact h
    | true =>
      rw [run_unlink_of_present (hs.trans hd) (ht.trans he)]
      exact h.withoutEdge src.id dst.id

/-- A copy in an automaton is a copy in its plain graph, also where it fails and uses up an id. -/
theorem duplicate (h : Represents g d) (s : State) :
    Represents ((Graph.duplicate s).run g).state (d.duplicate s) := by
  have hs := h.hasState g.counter.next
  rw [Digraph.duplicate, Digraph.copyOf, ← h.counter]
  cases hd : d.hasState g.counter.next with
  | true =>
    rw [run_duplicate_of_present (hs.trans hd)]
    exact h.withCounter _
  | false =>
    rw [run_duplicate_of_absent (hs.trans hd)]
    exact (h.withCounter g.counter.advance).withState (s := g.copyOf s) hd

theorem change (h : Represents g d) (id : StateId) (c : State.Change) :
    Represents ((Graph.change id c).run g).state (d.change id c) := by
  have hs := h.hasState id
  cases hd : d.hasState id with
  | true =>
    rw [run_change_of_present (hs.trans hd)]
    exact h.mapState id c
  | false =>
    rw [run_change_of_absent (hs.trans hd), change_of_absent hd]
    exact h

/-- An update of an automaton is the update of its plain graph. -/
theorem after (h : Represents g d) (u : Update) : Represents (g.after u) (d.after u) := by
  have map {α : Type} {f : α → Answer} {x : Action Graph α} {d' : Digraph}
      (hx : Represents (x.run g).state d') : Represents ((f <$> x).run g).state d' := by
    rw [Action.run_map]; exact hx
  cases u with
  | start ip c => exact map (h.start ip c)
  | add s => exact map (h.add s)
  | remove s => exact map (h.remove s)
  | link src dst => exact map (h.link src dst)
  | unlink src dst => exact map (h.unlink src dst)
  | duplicate s => exact map (h.duplicate s)
  | change id c => exact map (h.change id c)
  | issue =>
    rw [Digraph.after, ← h.counter]
    exact h.withCounter g.counter.advance
  | observe id =>
    rw [Digraph.after, ← h.counter]
    exact h.withCounter (g.counter.observe id)
  | reset last => exact h.withCounter ⟨last⟩

end Represents

end Graph

end FlowAutomaton
