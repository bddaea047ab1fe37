/-
All questions about neighbours describe one edge relation. Some of them look at the successors
that are kept at a vertex, some at the predecessors; in a well-formed automaton an edge is in one
list exactly if it is in the other, so what the predecessors say can be said with `hasEdge`, and
the edges are as many counted at their targets as counted at their sources.
-/
import FlowAutomaton.Proofs.Graph.Invariant
import FlowAutomaton.Proofs.Graph.Listing

namespace FlowAutomaton.Graph

variable {g : Graph}

/-! ## The states of neighbours -/

/-- The states of an adjacency list, where every member is a vertex. -/
theorem adjacent_eq (g : Graph) {ids : List StateId} (h : ∀ id ∈ ids, g.hasState id = true) :
    g.adjacent ids = .ok (ids.filterMap g.state?) := by
  induction ids with
  | nil => rfl
  | cons id ids ih =>
    obtain ⟨v, hv⟩ := find?_of_hasState (h id List.mem_cons_self)
    have ih := ih fun k hk => h k (List.mem_cons_of_mem id hk)
    rw [adjacent] at ih ⊢
    rw [List.mapM_cons, ih, lookup_of_find hv, List.filterMap_cons, state?_of_find hv]
    rfl

theorem succs_of_find (h : g.WF) {id : StateId} {v : Vertex} (hv : g.vertices.find? id = some v) :
    g.succs id = .ok ((g.succIds id).filterMap g.state?) := by
  have hc := h.succs_closed id
  rw [succIds_of_find hv] at hc ⊢
  rw [succs, lookup_of_find hv]
  exact adjacent_eq g hc

theorem preds_of_find (h : g.WF) {id : StateId} {v : Vertex} (hv : g.vertices.find? id = some v) :
    g.preds id = .ok ((g.predIds id).filterMap g.state?) := by
  have hc := h.preds_closed id
  rw [predIds_of_find hv] at hc ⊢
  rw [preds, lookup_of_find hv]
  exact adjacent_eq g hc

theorem succs_of_absent {id : StateId} (h : g.vertices.find? id = none) :
    g.succs id = .error (.notVertex .succs id) := by
  rw [succs, lookup_of_absent h]
  rfl

theorem preds_of_absent {id : StateId} (h : g.vertices.find? id = none) :
    g.preds id = .error (.notVertex .preds id) := by
  rw [preds, lookup_of_absent h]
  rfl

theorem WF.mem_predIds_iff (h : g.WF) {u w : StateId} : u ∈ g.predIds w ↔ g.hasEdge u w = true := by
  rw [hasEdge_iff, h.symm]

/-- A list of the states of the vertices of some ids, each once. -/
structure Lists (g : Graph) (l : List State) (p : StateId → Prop) : Prop where
  nodup : (l.map State.id).Nodup
  mem_iff : ∀ id, id ∈ l.map State.id ↔ p id
  vertex : ∀ s ∈ l, g.state? s.id = some s

theorem map_id_filterMap_state? (h : g.WF) {ids : List StateId}
    (hv : ∀ id ∈ ids, g.hasState id = true) : (ids.filterMap g.state?).map State.id = ids := by
  induction ids with
  | nil => rfl
  | cons id ids ih =>
    obtain ⟨hid, hids⟩ := List.forall_mem_cons.1 hv
    obtain ⟨s, hs⟩ := hasState_iff.1 hid
    rw [List.filterMap_cons, hs, List.map_cons, h.id_eq id s hs, ih hids]

/-- An adjacency list names as many vertices as it has members, each once. -/
theorem lists_filterMap_state? (h : g.WF) {ids : List StateId} {p : StateId → Prop}
    (hn : ids.Nodup) (hv : ∀ id ∈ ids, g.hasState id = true) (hp : ∀ id, id ∈ ids ↔ p id) :
    g.Lists (ids.filterMap g.state?) p ∧ ids.length = (ids.filterMap g.state?).length := by
  have hm := map_id_filterMap_state? h hv
  have hlen : ids.length = (ids.filterMap g.state?).length := by
    have hl := congrArg List.length hm
    rw [List.length_map] at hl
    exact hl.symm
  refine ⟨⟨?_, fun id => ?_, fun s hs => ?_⟩, hlen⟩
  · rw [hm]
    exact hn
  · rw [hm]
    exact hp id
  · obtain ⟨id, -, hid⟩ := List.mem_filterMap.1 hs
    rw [h.id_eq id s hid]
    exact hid

theorem succs_lists (h : g.WF) {id : StateId} {v : Vertex} (hv : g.vertices.find? id = some v) :
    ∃ l, g.succs id = .ok l ∧ g.Lists l (fun w => g.hasEdge id w = true) ∧
      v.succs.length = l.length := by
  refine ⟨_, succs_of_find h hv, ?_⟩
  rw [← succIds_of_find hv]
  exact lists_filterMap_state? h (h.succs_nodup id) (h.succs_closed id) fun w => hasEdge_iff.symm

theorem preds_lists (h : g.WF) {id : StateId} {v : Vertex} (hv : g.vertices.find? id = some v) :
    ∃ l, g.preds id = .ok l ∧ g.Lists l (fun u => g.hasEdge u id = true) ∧
      v.preds.length = l.length := by
  refine ⟨_, preds_of_find h hv, ?_⟩
  rw [← predIds_of_find hv]
  exact lists_filterMap_state? h (h.preds_nodup id) (h.preds_closed id) fun u => h.mem_predIds_iff

/-! ## The only predecessor -/

/-- What there is to say of the predecessors of an id, where one is asked for: which vertex is the
only one, or why there is no only one. -/
def PredIs (g : Graph) (id : StateId) : Except QueryFailure State → Prop
  | .ok t => g.state? t.id = some t ∧ ∀ u, g.hasEdge u id = true ↔ u = t.id
  | .error .noPredecessor => ∀ u, g.hasEdge u id = false
  | .error .multiplePredecessors =>
    ∃ u w, u ≠ w ∧ g.hasEdge u id = true ∧ g.hasEdge w id = true
  | .error .notFound => False

theorem not_predIs_noPredecessor {id u : StateId} (hu : g.hasEdge u id = true) :
    ¬g.PredIs id (.error .noPredecessor) := by
  intro hn
  rw [hn u] at hu
  cases hu

theorem PredIs.not_multiplePredecessors {id : StateId} {t : State} (h : g.PredIs id (.ok t)) :
    ¬g.PredIs id (.error .multiplePredecessors) := by
  rintro ⟨u, w, hne, hu, hw⟩
  exact hne (((h.2 u).1 hu).trans ((h.2 w).1 hw).symm)

theorem PredIs.hasEdge {id : StateId} {t : State} (h : g.PredIs id (.ok t)) :
    g.hasEdge t.id id = true :=
  (h.2 t.id).2 rfl

/-- No two things can be said of the predecessors of an id. -/
theorem PredIs.unique {id : StateId} {r r' : Except QueryFailure State} (h : g.PredIs id r)
    (h' : g.PredIs id r') : r = r' := by
  match r, r', h, h' with
  | .ok t, .ok t', h, h' =>
    have hid : t.id = t'.id := (h'.2 t.id).1 h.hasEdge
    have hs := h.1
    rw [hid, h'.1] at hs
    rw [Option.some.inj hs]
  | .ok _, .error .noPredecessor, h, hn => exact absurd hn (not_predIs_noPredecessor h.hasEdge)
  | .ok _, .error .multiplePredecessors, h, hm => exact absurd hm h.not_multiplePredecessors
  | .error .noPredecessor, .ok _, hn, h => exact absurd hn (not_predIs_noPredecessor h.hasEdge)
  | .error .noPredecessor, .error .noPredecessor, _, _ => rfl
  | .error .noPredecessor, .error .multiplePredecessors, hn, ⟨_, _, _, hu, _⟩ =>
    exact absurd hn (not_predIs_noPredecessor hu)
  | .error .multiplePredecessors, .ok _, hm, h => exact absurd hm h.not_multiplePredecessors
  | .error .multiplePredecessors, .error .noPredecessor, ⟨_, _, _, hu, _⟩, hn =>
    exact absurd hn (not_predIs_noPredecessor hu)
  | .error .multiplePredecessors, .error .multiplePredecessors, _, _ => rfl

theorem exists_predIs (h : g.WF) {s : State} (hs : g.hasState s.id = true) :
    ∃ r, ((pred s).run g).result = .ok r ∧ g.PredIs s.id r := by
  match hl : g.predIds s.id with
  | [] =>
    refine ⟨.error .noPredecessor, by rw [run_pred_of_none hs hl], fun u => ?_⟩
    rw [Bool.eq_false_iff, ne_eq, ← h.mem_predIds_iff, hl]
    exact List.not_mem_nil
  | [p] =>
    obtain ⟨t, ht⟩ := hasState_iff.1 (h.preds_closed s.id p (hl ▸ List.mem_singleton_self p))
    have hid := h.id_eq p t ht
    refine ⟨.ok t, by rw [run_pred_of_one hl ht], hid.symm ▸ ht, fun u => ?_⟩
    rw [← h.mem_predIds_iff, hl, List.mem_singleton, hid]
  | p :: q :: l =>
    -- two members of a list without duplicates are two predecessors
    have hm : 2 ≤ (g.predIds s.id).length := by rw [hl]; simp
    have hn := h.preds_nodup s.id
    rw [hl] at hn
    have hpq : p ≠ q := fun he => (List.nodup_cons.1 hn).1 (he ▸ List.mem_cons_self)
    refine ⟨.error .multiplePredecessors, by rw [run_pred_of_many hm], p, q, hpq, ?_, ?_⟩
    · rw [← h.mem_predIds_iff, hl]
      exact List.mem_cons_self
    · rw [← h.mem_predIds_iff, hl]
      exact List.mem_cons_of_mem p List.mem_cons_self

theorem result_pred_eq_ok_iff (h : g.WF) {s : State} (hs : g.hasState s.id = true)
    (r : Except QueryFailure State) : ((pred s).run g).result = .ok r ↔ g.PredIs s.id r := by
  obtain ⟨r', hr', hp'⟩ := exists_predIs h hs
  rw [hr']
  constructor
  · intro he
    cases he
    exact hp'
  · intro hp
    rw [hp'.unique hp]

/-! ## Counts -/

/-- Every edge is counted once at its source and once at its target. -/
theorem sum_preds_eq_sum_succs (h : g.WF) :
    (g.vertices.entries.map fun e => e.2.preds.length).sum =
      (g.vertices.entries.map fun e => e.2.succs.length).sum := by
  have hsucc : (g.listed Vertex.succs).Nodup := g.nodup_listed Vertex.succs h.succs_nodup
  have hpred : ((g.listed Vertex.preds).map Prod.swap).Nodup :=
    (g.nodup_listed Vertex.preds h.preds_nodup).map Prod.swap_injective
  -- the pairs of a target and a source, turned round, are the pairs of a source and a target
  have hperm : ((g.listed Vertex.preds).map Prod.swap).Perm (g.listed Vertex.succs) := by
    refine (List.perm_ext_iff_of_nodup hpred hsucc).2 ?_
    rintro ⟨u, w⟩
    rw [g.mem_listed Vertex.succs, List.mem_map]
    constructor
    · rintro ⟨⟨a, b⟩, hm, he⟩
      cases he
      exact (h.symm b a).2 ((g.mem_listed Vertex.preds).1 hm)
    · intro hm
      exact ⟨(w, u), (g.mem_listed Vertex.preds).2 ((h.symm u w).1 hm), rfl⟩
  rw [← g.length_listed Vertex.preds, ← g.length_listed Vertex.succs, ← hperm.length_eq,
    List.length_map]

theorem sinks_lists (h : g.WF) :
    g.Lists g.sinks fun v => g.hasState v = true ∧ ∀ w, g.hasEdge v w = false := by
  have hempty : ∀ id, g.succIds id = [] ↔ ∀ w, g.hasEdge id w = false := by
    intro id
    rw [List.eq_nil_iff_forall_not_mem]
    refine forall_congr' fun w => ?_
    rw [← hasEdge_iff, Bool.not_eq_true]
  refine ⟨?_, fun id => ?_, fun s hs => ?_⟩
  · exact List.pairwise_map.2 ((sinks_sorted h).imp fun hlt => UInt64.ne_of_lt hlt)
  · rw [List.mem_map]
    constructor
    · rintro ⟨s, hs, rfl⟩
      obtain ⟨id, hid, he⟩ := g.mem_sinks.1 hs
      rw [h.id_eq id s hid]
      exact ⟨hasState_iff.2 ⟨s, hid⟩, (hempty id).1 he⟩
    · rintro ⟨hs, he⟩
      obtain ⟨s, hs⟩ := hasState_iff.1 hs
      exact ⟨s, g.mem_sinks.2 ⟨id, hs, (hempty id).2 he⟩, h.id_eq id s hs⟩
  · obtain ⟨id, hid, -⟩ := g.mem_sinks.1 hs
    rw [h.id_eq id s hid]
    exact hid

/-! ## All questions together -/

/-- All questions describe the edges that `hasEdge` knows. The only predecessor of a vertex is
told where there is one, and else why not; the predecessors and the successors of a vertex are
told each once, and the degrees of the vertex are their numbers. The vertices without successors,
the edges and the ids come in strictly increasing order, and there are as many edges as successors
and as predecessors of all vertices together. -/
theorem questions_describe_edges (h : g.WF) :
    (∀ s, g.hasState s.id = true →
      ∀ r, ((pred s).run g).result = .ok r ↔ g.PredIs s.id r) ∧
    (∀ id v, g.vertices.find? id = some v →
      (∃ l, g.preds id = .ok l ∧ g.Lists l (fun u => g.hasEdge u id = true) ∧
        v.preds.length = l.length) ∧
      ∃ l, g.succs id = .ok l ∧ g.Lists l (fun w => g.hasEdge id w = true) ∧
        v.succs.length = l.length) ∧
    (g.sinks.Pairwise IdLT ∧
      g.Lists g.sinks fun v => g.hasState v = true ∧ ∀ w, g.hasEdge v w = false) ∧
    (g.edges.Pairwise EdgeLT ∧ ∀ src dst, (src, dst) ∈ g.edges ↔ g.hasEdge src dst = true) ∧
    (g.numEdges = g.edges.length ∧
      g.numEdges = (g.vertices.entries.map fun e => e.2.succs.length).sum ∧
      g.numEdges = (g.vertices.entries.map fun e => e.2.preds.length).sum) ∧
    g.ids.Pairwise (· < ·) ∧ (∀ id, id ∈ g.ids ↔ g.hasState id = true) ∧
      g.ids.length = g.size := by
  refine ⟨fun s hs => result_pred_eq_ok_iff h hs, fun id v hv => ⟨preds_lists h hv, succs_lists h hv⟩,
    ⟨sinks_sorted h, sinks_lists h⟩, ⟨edges_sorted h, fun src dst => ?_⟩, ⟨?_, ?_, ?_⟩,
    g.ids_sorted, fun id => g.mem_ids, g.length_ids⟩
  · rw [mem_edges, hasEdge_iff]
  · exact g.length_edges.symm
  · exact g.numEdges_eq_sum
  · rw [sum_preds_eq_sum_succs h]
    exact g.numEdges_eq_sum

/-- Four vertices: two ways from the first to the last, and an edge from the last to itself. -/
def diamond : Graph :=
  afterAll {}
    [.add { id := 4 }, .add { id := 2 }, .add { id := 3 }, .add { id := 1 }, .link 1 3, .link 1 2,
      .link 2 4, .link 3 4, .link 4 4]

theorem questions_describe_edges_diamond :
    diamond.WF ∧ diamond.hasState 2 = true ∧ diamond.hasState 1 = true ∧
      (∀ u, diamond.hasEdge u 2 = true ↔ u = 1) ∧ (∀ u, diamond.hasEdge u 1 = false) ∧
      (∃ v l, diamond.vertices.find? 4 = some v ∧ diamond.preds 4 = .ok l ∧
        diamond.Lists l (fun u => diamond.hasEdge u 4 = true) ∧ l.length = 3) ∧
      diamond.edges.Pairwise EdgeLT ∧ diamond.numEdges = 5 ∧
      (diamond.vertices.entries.map fun e => e.2.preds.length).sum = 5 := by
  have h : diamond.WF := WF.empty.afterAll _
  have h2 : ((pred { id := 2 }).run diamond).result = .ok (.ok { id := 1 }) := by rfl
  have h1 : ((pred { id := 1 }).run diamond).result = .ok (.error .noPredecessor) := by rfl
  have h4 : diamond.vertices.find? 4 = some ⟨{ id := 4 }, [4], [2, 3, 4]⟩ := by rfl
  have hs2 : diamond.hasState 2 = true := by rfl
  have hs1 : diamond.hasState 1 = true := by rfl
  have hn : diamond.numEdges = 5 := by rfl
  obtain ⟨hpred, hlists, -, ⟨hsorted, -⟩, ⟨-, -, hin⟩, -⟩ := questions_describe_edges h
  obtain ⟨⟨l, hl, hmem, hlen⟩, -⟩ := hlists 4 _ h4
  exact ⟨h, hs2, hs1, ((hpred { id := 2 } hs2 _).1 h2).2, (hpred { id := 1 } hs1 _).1 h1,
    ⟨_, l, h4, hl, hmem, hlen.symm⟩, hsorted, hn, hin.symm.trans hn⟩

end FlowAutomaton.Graph
