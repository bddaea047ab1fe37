/-
Changes of a vertex where it stands. A change of a part of its state leaves the structure of the
automaton alone: the vertex keeps the id under which it is stored, and all edges stay as they
were. To replace the whole state is another matter: the vertex takes over the id of the new state
and forgets its edges, which its neighbours still list. So this keeps the structure only where the
new state has the id of the vertex and there is no edge at it.

What a change does is said vertex by vertex (`find?_touched`), and the structure depends on the id
and the two lists of the vertex alone (`sameStructure_of_lists`).
-/
import FlowAutomaton.Proofs.Graph.Invariant

namespace FlowAutomaton.Graph

/-! ## Changes -/

/-- What can be done to a vertex as a state. -/
inductive Touch where
  /-- A part of the state is changed. -/
  | part (c : State.Change)
  /-- The state is replaced by another one. -/
  | whole (s : State)
  /-- The state is replaced by itself, which is noticed. -/
  | itself

namespace Touch

/-- The action of a change of a vertex. -/
def action (id : StateId) : Touch → Action Graph Unit
  | part c => change id c
  | whole s => assign id s
  | itself => do
    let _ ← need .node id
    pure ()

/-- What a change makes of the vertex. -/
def apply : Touch → Vertex → Vertex
  | part c, v => { v with state := v.state.change c }
  | whole s, _ => { state := s }
  | itself, v => v

/-- Whether a change leaves alone what other vertices rely on. -/
def Harmless (g : Graph) (id : StateId) : Touch → Prop
  | part _ => True
  | whole s => s.id = id ∧ ∀ u, g.hasEdge id u = false ∧ g.hasEdge u id = false
  | itself => True

end Touch

/-- The automaton after a change of a vertex. -/
def touched (g : Graph) (id : StateId) (t : Touch) : Graph := ((t.action id).run g).state

/-- An automaton has the structure of another one, as far as a vertex of it has anything to do
with that: it is well-formed, the vertex has the id under which it is stored, and the edges are
the same. -/
structure SameStructure (g k : Graph) (id : StateId) : Prop where
  wf : k.WF
  id_kept : ∃ s, k.state? id = some s ∧ s.id = id
  edges : ∀ src dst, k.hasEdge src dst = g.hasEdge src dst

/-! ## What a change does -/

section

variable {g : Graph} {id : StateId}

theorem run_assign_of_present (hi : g.hasState id = true) (s : State) :
    (assign id s).run g =
      ⟨.ok (), { g with vertices := g.vertices.modify id fun _ => { state := s } }, []⟩ := by
  obtain ⟨v, hv⟩ := find?_of_hasState hi
  unfold assign
  rw [Action.run_bind_quiet (run_need_of_find hv)]
  rfl

theorem modify_itself (vs : Vertices) (id : StateId) : vs.modify id (fun v => v) = vs := by
  obtain ⟨entries, nodup⟩ := vs
  simp [Vertices.modify]

theorem run_touch (hi : g.hasState id = true) (t : Touch) :
    (t.action id).run g = ⟨.ok (), { g with vertices := g.vertices.modify id t.apply }, []⟩ := by
  cases t with
  | part c => exact run_change_of_present hi c
  | whole s => exact run_assign_of_present hi s
  | itself =>
    obtain ⟨v, hv⟩ := find?_of_hasState hi
    unfold Touch.action
    rw [Action.run_bind_quiet (run_need_of_find hv)]
    change (⟨.ok (), g, []⟩ : Outcome Graph Unit) =
      ⟨.ok (), { g with vertices := g.vertices.modify id fun v => v }, []⟩
    rw [modify_itself]

theorem find?_touched (hi : g.hasState id = true) (t : Touch) (u : StateId) :
    (g.touched id t).vertices.find? u =
      if u = id then (g.vertices.find? id).map t.apply else g.vertices.find? u := by
  rw [touched, run_touch hi]
  exact Vertices.find?_modify g.vertices id t.apply u

end

/-! ## What the structure depends on -/

section

variable {g : Graph} {id : StateId} {v : Vertex}

/-- A change that leaves alone the id of a vertex and its two lists keeps the structure. -/
theorem sameStructure_of_lists (h : g.WF) (hv : g.vertices.find? id = some v) {t : Touch}
    (hid : (t.apply v).state.id = v.state.id) (hs : (t.apply v).succs = v.succs)
    (hp : (t.apply v).preds = v.preds) : SameStructure g (g.touched id t) id := by
  have hf := find?_touched (hasState_of_find hv) t
  have at_id : (g.touched id t).vertices.find? id = some (t.apply v) := by
    rw [hf, if_pos rfl, hv]
    rfl
  have elsewhere : ∀ u, u ≠ id → (g.touched id t).vertices.find? u = g.vertices.find? u :=
    fun u hu => by rw [hf, if_neg hu]
  -- the lists are those of before, at the vertex and elsewhere
  have hsucc : ∀ u, (g.touched id t).succIds u = g.succIds u := by
    intro u
    by_cases hu : u = id
    · rw [hu, succIds_of_find at_id, succIds_of_find hv, hs]
    · rw [succIds, elsewhere u hu, succIds]
  have hpred : ∀ u, (g.touched id t).predIds u = g.predIds u := by
    intro u
    by_cases hu : u = id
    · rw [hu, predIds_of_find at_id, predIds_of_find hv, hp]
    · rw [predIds, elsewhere u hu, predIds]
  have hstate : ∀ u, (g.touched id t).hasState u = g.hasState u := by
    intro u
    by_cases hu : u = id
    · rw [hu, hasState_of_find at_id, hasState_of_find hv]
    · rw [hasState, Vertices.contains, elsewhere u hu, hasState, Vertices.contains]
  have kept : (t.apply v).state.id = id := hid.trans (h.id_of_find hv)
  have hids : ∀ u s, (g.touched id t).state? u = some s → s.id = u := by
    intro u s hu
    by_cases hne : u = id
    · rw [hne, state?_of_find at_id] at hu
      rw [← Option.some.inj hu, kept, hne]
    · rw [state?, elsewhere u hne] at hu
      exact h.id_eq u s hu
  refine ⟨h.of_same_lists hids hstate hsucc hpred, ⟨_, state?_of_find at_id, kept⟩, ?_⟩
  intro src dst
  rw [Bool.eq_iff_iff, hasEdge_iff, hasEdge_iff, hsucc]

/-- A vertex without edges has nothing in its lists. -/
theorem lists_eq_nil (h : g.WF) (hv : g.vertices.find? id = some v)
    (hn : ∀ u, g.hasEdge id u = false ∧ g.hasEdge u id = false) : v.succs = [] ∧ v.preds = [] := by
  rw [← succIds_of_find hv, ← predIds_of_find hv]
  constructor
  · refine List.eq_nil_iff_forall_not_mem.2 fun w hw => ?_
    have he := hasEdge_iff.2 hw
    rw [(hn w).1] at he
    cases he
  · refine List.eq_nil_iff_forall_not_mem.2 fun u hu => ?_
    have he := hasEdge_iff.2 ((h.symm u id).2 hu)
    rw [(hn u).2] at he
    cases he

/-- Where the structure is kept although the whole state of a vertex was replaced, there was
nothing to lose. -/
theorem harmless_of_sameStructure (hv : g.vertices.find? id = some v) {s : State}
    (hk : SameStructure g (g.touched id (.whole s)) id) : (Touch.whole s).Harmless g id := by
  have at_id : (g.touched id (.whole s)).vertices.find? id = some { state := s } := by
    rw [find?_touched (hasState_of_find hv), if_pos rfl, hv]
    rfl
  refine ⟨hk.wf.id_of_find at_id, fun u => ⟨?_, ?_⟩⟩
  · rw [← hk.edges, Bool.eq_false_iff, ne_eq, hasEdge_iff, succIds_of_find at_id]
    exact List.not_mem_nil
  · -- an edge from elsewhere would have to be in the list of predecessors, which is empty
    rw [← hk.edges, Bool.eq_false_iff, ne_eq, hasEdge_iff, hk.wf.symm, predIds_of_find at_id]
    exact List.not_mem_nil

theorem sameStructure_iff (h : g.WF) (hv : g.vertices.find? id = some v) (t : Touch) :
    SameStructure g (g.touched id t) id ↔ t.Harmless g id := by
  cases t with
  | part c =>
    refine ⟨fun _ => trivial, fun _ => ?_⟩
    exact sameStructure_of_lists h hv (State.id_change v.state c) rfl rfl
  | whole s =>
    refine ⟨harmless_of_sameStructure hv, fun ⟨hid, hn⟩ => ?_⟩
    obtain ⟨hs, hp⟩ := lists_eq_nil h hv hn
    exact sameStructure_of_lists h hv (hid.trans (h.id_of_find hv).symm) hs.symm hp.symm
  | itself =>
    refine ⟨fun _ => trivial, fun _ => ?_⟩
    exact sameStructure_of_lists h hv rfl rfl rfl

end

/-- A change of a vertex in place succeeds and changes no other vertex. It keeps the structure of
the automaton if it is a change of a part of the state, or the vertex is replaced by itself. If it
is replaced by another state, the structure is kept exactly if that has the id of the vertex and
there is no edge at the vertex; else the vertex is left with the id of the new state and without
its edges. -/
theorem structure_kept_iff {g : Graph} (h : g.WF) {id : StateId} (hi : g.hasState id = true)
    (t : Touch) :
    ((t.action id).run g).result = .ok () ∧
      (∀ u, (g.touched id t).vertices.find? u =
        if u = id then (g.vertices.find? id).map t.apply else g.vertices.find? u) ∧
      (g.touched id t).counter = g.counter ∧
      (SameStructure g (g.touched id t) id ↔ t.Harmless g id) := by
  obtain ⟨v, hv⟩ := find?_of_hasState hi
  refine ⟨?_, find?_touched hi t, ?_, sameStructure_iff h hv t⟩
  · rw [run_touch hi]
  · rw [touched, run_touch hi]

/-- Two vertices with an edge between them, and one without edges. -/
def edgeAndPoint : Graph := afterAll {} [.add { id := 0 }, .add { id := 1 }, .add { id := 2 }, .link 0 1]

theorem structure_kept_edgeAndPoint :
    edgeAndPoint.WF ∧ edgeAndPoint.hasState 1 = true ∧ edgeAndPoint.hasState 2 = true ∧
      SameStructure edgeAndPoint (edgeAndPoint.touched 1 (.part (.isFinal true))) 1 ∧
      ¬SameStructure edgeAndPoint (edgeAndPoint.touched 2 (.whole { id := 5 })) 2 := by
  have h : edgeAndPoint.WF := WF.empty.afterAll _
  refine ⟨h, by decide, by decide, ?_, ?_⟩
  · exact (structure_kept_iff h (by decide) (.part (.isFinal true))).2.2.2.2 trivial
  · intro hk
    have hid := ((structure_kept_iff h (by decide) (.whole { id := 5 })).2.2.2.1 hk).1
    exact absurd hid (by decide)

/-- A vertex that is replaced by a state of its own id loses the edge to it at one end only; one
that is replaced by a state of another id is then stored under an id that it does not have. -/
theorem replaced_vertex_forgets :
    edgeAndPoint.WF ∧ edgeAndPoint.hasEdge 0 1 = true ∧
      (edgeAndPoint.touched 1 (.whole { id := 1 })).hasEdge 0 1 = true ∧
      (edgeAndPoint.touched 1 (.whole { id := 1 })).predIds 1 = [] ∧
      ¬(edgeAndPoint.touched 1 (.whole { id := 1 })).WF ∧
      ¬(edgeAndPoint.touched 2 (.whole { id := 5 })).WF := by
  refine ⟨WF.empty.afterAll _, by decide, by decide, by decide, fun hk => ?_, fun hk => ?_⟩
  · have hm := (hk.symm 0 1).1 (by decide)
    exact absurd hm (by decide)
  · have hid := hk.id_eq 2 { id := 5 } (by decide)
    exact absurd hid (by decide)

end FlowAutomaton.Graph
