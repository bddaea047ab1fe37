/-
An automaton behaves as a plain directed graph. Each update of a well-formed automaton is the
update of its plain graph, answers what the plain graph says, and fails only where it says so; an
edge of which an end was removed does not come back with the id of that end, but only by being
added again.
-/
import FlowAutomaton.Proofs.Graph.Invariant

namespace FlowAutomaton

/-! ## Ids that no edge is at -/

/-- Whether an update adds an edge at an id. -/
def Graph.Update.LinksAt (id : StateId) : Graph.Update → Prop
  | link src dst => src = id ∨ dst = id
  | _ => False

namespace Digraph

/-- No edge starts or ends at an id. -/
def Isolated (d : Digraph) (id : StateId) : Prop := ∀ e ∈ d.edges, e.1 ≠ id ∧ e.2 ≠ id

theorem isolated_remove (d : Digraph) (id : StateId) : (d.remove id).Isolated id :=
  fun _ he => he.2

/-- Edges come into being by being added. -/
theorem edges_after (d : Digraph) (u : Graph.Update) :
    ∀ e ∈ (d.after u).edges, e ∈ d.edges ∨ u = .link e.1 e.2 := by
  rintro ⟨a, b⟩ he
  cases u with
  | start ip c =>
    left
    rw [after, start] at he
    split at he
    · split at he <;> exact he
    · exact he
  | add s =>
    left
    rw [after, add] at he
    split at he <;> exact he
  | remove s => exact .inl he.1
  | link src dst =>
    rw [after] at he
    split at he
    · rcases (d.mem_edges_link).1 he with he | ⟨rfl, rfl⟩
      exacts [.inl he, .inr rfl]
    · exact .inl he
  | unlink src dst => exact .inl he.1
  | duplicate s =>
    left
    rw [after, duplicate] at he
    split at he <;> exact he
  | change id c => exact .inl he
  | issue => exact .inl he
  | observe id => exact .inl he
  | reset last => exact .inl he

theorem Isolated.after {d : Digraph} {id : StateId} (h : d.Isolated id) {u : Graph.Update}
    (hu : ¬u.LinksAt id) : (d.after u).Isolated id := by
  intro e he
  rcases d.edges_after u e he with he | rfl
  · exact h e he
  · exact ⟨fun hs => hu (.inl hs), fun ht => hu (.inr ht)⟩

end Digraph

namespace Graph

variable {g : Graph}

/-! ## Runs of updates -/

theorem isolated_foldl {d : Digraph} {id : StateId} (h : d.Isolated id) (us : List Update)
    (hu : ∀ u ∈ us, ¬u.LinksAt id) : (us.foldl Digraph.after d).Isolated id := by
  induction us generalizing d with
  | nil => exact h
  | cons u us ih =>
    exact ih (h.after (hu u List.mem_cons_self)) fun v hv => hu v (List.mem_cons_of_mem u hv)

/-- A plain graph without an edge at an id is an automaton in which no list has anything to do
with that id. -/
theorem Represents.isolated {d : Digraph} (h : Represents g d) {id : StateId}
    (hi : d.Isolated id) :
    g.succIds id = [] ∧ g.predIds id = [] ∧ ∀ k, id ∉ g.succIds k ∧ id ∉ g.predIds k := by
  refine ⟨List.eq_nil_iff_forall_not_mem.2 fun w hw => ?_,
    List.eq_nil_iff_forall_not_mem.2 fun u hu => ?_, fun k => ⟨fun hk => ?_, fun hk => ?_⟩⟩
  · exact (hi _ ((h.succs id w).1 hw)).1 rfl
  · exact (hi _ ((h.preds u id).1 hu)).2 rfl
  · exact (hi _ ((h.succs k id).1 hk)).2 rfl
  · exact (hi _ ((h.preds id k).1 hk)).1 rfl

/-! ## The refinement -/

/-- A well-formed automaton is a plain graph in all its updates. Each update, and so each run of
updates, leaves the plain graph that it makes of the plain graph before. An added state is
answered by the vertex of its id, the old one if there was one, and then nothing has changed; a
removal of no vertex changes nothing either; a copy is a new vertex; and removing, adding or
removing an edge between vertices, and changing the state of a vertex succeed. After a vertex was
removed, its id is without edges, as a vertex again or not, until an edge at it is added. -/
theorem refines_digraph (h : g.WF) :
    (∀ u, (g.after u).WF ∧ (g.after u).view = g.view.after u) ∧
    (∀ us, (g.afterAll us).view = us.foldl Digraph.after g.view) ∧
    (∀ s, ((add s).run g).result = .ok ((g.vertices.find? s.id).getD { state := s }) ∧
      (g.hasState s.id = true → ((add s).run g).state = g)) ∧
    (∀ s, ((remove s).run g).result = .ok () ∧
      (g.hasState s.id = false → ((remove s).run g).state = g)) ∧
    (∀ src dst, g.hasState src = true → g.hasState dst = true →
      ((link src dst).run g).result = .ok ()) ∧
    (∀ src dst, ((unlink src dst).run g).result = .ok ()) ∧
    (∀ s v, ((duplicate s).run g).result = .ok v →
      g.hasState g.counter.next = false ∧ v = { state := g.copyOf s } ∧
      ((duplicate s).run g).state.view =
        { g.view.insert (g.copyOf s) with counter := g.counter.advance }) ∧
    (∀ id c, g.hasState id = true → ((change id c).run g).result = .ok ()) ∧
    (∀ s us, (∀ u ∈ us, ¬u.LinksAt s.id) →
      let g' := (g.after (.remove s)).afterAll us
      g'.succIds s.id = [] ∧ g'.predIds s.id = [] ∧
        ∀ k, s.id ∉ g'.succIds k ∧ s.id ∉ g'.predIds k) := by
  have hr := h.represents
  refine ⟨fun u => ⟨h.after u, (hr.after u).view_eq⟩, fun us => (hr.afterAll us).view_eq,
    fun s => ⟨result_add g s, fun hs => ?_⟩, fun s => ⟨h.result_remove s, fun hs => ?_⟩,
    fun src dst hs hd => h.result_link hs hd, result_unlink g, fun s v hv => ?_,
    fun id c hi => ?_, fun s us hu => ?_⟩
  · obtain ⟨v, hv⟩ := find?_of_hasState hs
    rw [run_add_of_present hv]
  · rw [run_remove_of_absent hs]
  · rw [result_duplicate] at hv
    cases hn : g.hasState g.counter.next with
    | true => rw [hn] at hv; cases hv
    | false =>
      rw [hn] at hv
      cases hv
      have hd : g.view.hasState g.view.counter.next = false := (hr.hasState _).symm.trans hn
      refine ⟨rfl, rfl, ?_⟩
      rw [(hr.duplicate s).view_eq, Digraph.duplicate, hd]
      rfl
  · rw [run_change_of_present hi]
  · exact ((hr.after (.remove s)).afterAll us).isolated
      (isolated_foldl (Digraph.isolated_remove g.view s.id) us hu)

/-- Two vertices with an edge between them, and one from the second to itself. -/
def edgeAndLoop : Graph := afterAll {} [.add { id := 3 }, .add { id := 5 }, .link 3 5, .link 5 5]

theorem edgeAndLoop_refines :
    edgeAndLoop.WF ∧ edgeAndLoop.hasEdge 3 5 = true ∧ edgeAndLoop.hasEdge 5 5 = true ∧
      let g := (edgeAndLoop.after (.remove { id := 5 })).afterAll [.add { id := 5 }]
      g.hasState 5 = true ∧ g.succIds 5 = [] ∧ g.predIds 5 = [] ∧
        ∀ k, 5 ∉ g.succIds k ∧ 5 ∉ g.predIds k := by
  have h : edgeAndLoop.WF := WF.empty.afterAll _
  have hadd : ∀ u ∈ [Update.add { id := 5 }], ¬u.LinksAt 5 := by
    intro u hu
    rw [List.mem_singleton.1 hu]
    exact id
  exact ⟨h, by decide, by decide, by decide, (refines_digraph h).2.2.2.2.2.2.2.2 { id := 5 } _ hadd⟩

end Graph

end FlowAutomaton
