/-
Automata that are the same plain graph cannot be told apart. The order in which vertices are
stored and in which neighbours are listed comes from the history of an automaton; no answer, no
failure and no report of a run shows it, nor do the text and the checkpoint of what the run leaves.

Every answer is a function of the plain graph (the lists are sorted, degrees and neighbours come
from lists with the same members), and every update leaves the same plain graph on both sides.
-/
import FlowAutomaton.Checkpoint.File
import FlowAutomaton.Proofs.Graph.Neighbours

namespace FlowAutomaton.Graph

/-! ## Equivalent automata -/

/-- The same vertices with the same contents, the same edges and the same counter. -/
structure Equivalent (g k : Graph) : Prop where
  states : ∀ id, g.state? id = k.state? id
  edges : ∀ src dst, g.hasEdge src dst = k.hasEdge src dst
  counter : g.counter = k.counter

variable {g k : Graph}

/-- Automata are equivalent exactly if they are the same plain graph. -/
theorem equivalent_iff_view_eq : Equivalent g k ↔ g.view = k.view := by
  constructor
  · intro h
    refine Digraph.ext (funext h.states) (Set.ext fun ⟨u, w⟩ => ?_) h.counter
    show w ∈ g.succIds u ↔ w ∈ k.succIds u
    rw [← hasEdge_iff, ← hasEdge_iff, h.edges]
  · intro h
    refine ⟨fun id => congrFun (congrArg Digraph.states h) id, fun src dst => ?_,
      congrArg Digraph.counter h⟩
    have he : (src, dst) ∈ g.view.edges ↔ (src, dst) ∈ k.view.edges := by rw [h]
    rw [Bool.eq_iff_iff, hasEdge_iff, hasEdge_iff]
    exact he

/-- Automata are equivalent if they have the same ids and agree at each of them. -/
theorem equivalent_of_keys (hk : g.vertices.keys.Perm k.vertices.keys)
    (hs : ∀ id ∈ g.vertices.keys, g.state? id = k.state? id)
    (he : ∀ id ∈ g.vertices.keys, (g.succIds id).Perm (k.succIds id)) (hc : g.counter = k.counter) :
    Equivalent g k := by
  have absent : ∀ id, id ∉ g.vertices.keys →
      g.vertices.find? id = none ∧ k.vertices.find? id = none := fun id hi =>
    ⟨Vertices.find?_eq_none_iff.2 hi, Vertices.find?_eq_none_iff.2 (mt hk.mem_iff.2 hi)⟩
  refine ⟨fun id => ?_, fun src dst => ?_, hc⟩
  · by_cases hi : id ∈ g.vertices.keys
    · exact hs id hi
    · obtain ⟨hg, hk⟩ := absent id hi
      rw [state?_of_absent hg, state?_of_absent hk]
  · rw [Bool.eq_iff_iff, hasEdge_iff, hasEdge_iff]
    by_cases hi : src ∈ g.vertices.keys
    · exact (he src hi).mem_iff
    · obtain ⟨hg, hk⟩ := absent src hi
      rw [succIds_of_absent hg, succIds_of_absent hk]

/-! ## Look-up on both sides -/

namespace Represents

variable {d : Digraph} (hg : Represents g d) (hk : Represents k d)

include hg hk

theorem state?_eq (id : StateId) : g.state? id = k.state? id :=
  (hg.states id).trans (hk.states id).symm

theorem hasState_eq (id : StateId) : g.hasState id = k.hasState id :=
  (hg.hasState id).trans (hk.hasState id).symm

/-- Neighbours are the same, in orders that may differ. -/
theorem succIds_perm (id : StateId) : (g.succIds id).Perm (k.succIds id) :=
  (List.perm_ext_iff_of_nodup (hg.succs_nodup id) (hk.succs_nodup id)).2 fun w =>
    (hg.succs id w).trans (hk.succs id w).symm

theorem predIds_perm (id : StateId) : (g.predIds id).Perm (k.predIds id) :=
  (List.perm_ext_iff_of_nodup (hg.preds_nodup id) (hk.preds_nodup id)).2 fun u =>
    (hg.preds u id).trans (hk.preds u id).symm

/-- What can be seen of a vertex is the same: its state and the numbers of its neighbours. -/
theorem ofVertex_eq {id : StateId} {v w : Vertex} (hv : g.vertices.find? id = some v)
    (hw : k.vertices.find? id = some w) : Answer.ofVertex v = Answer.ofVertex w := by
  have hs : v.state = w.state := by
    have h := hg.state?_eq hk id
    rw [state?_of_find hv, state?_of_find hw] at h
    exact Option.some.inj h
  have hn := (hg.succIds_perm hk id).length_eq
  have hp := (hg.predIds_perm hk id).length_eq
  rw [succIds_of_find hv, succIds_of_find hw] at hn
  rw [predIds_of_find hv, predIds_of_find hw] at hp
  rw [Answer.ofVertex, Answer.ofVertex, hs, hn, hp]

/-- An id has a vertex on both sides or on none. -/
theorem find?_cases (id : StateId) :
    (∃ v w, g.vertices.find? id = some v ∧ k.vertices.find? id = some w) ∨
      g.vertices.find? id = none ∧ k.vertices.find? id = none := by
  have h := hg.hasState_eq hk id
  cases hi : g.hasState id with
  | true =>
    obtain ⟨v, hv⟩ := find?_of_hasState hi
    obtain ⟨w, hw⟩ := find?_of_hasState (h.symm.trans hi)
    exact .inl ⟨v, w, hv, hw⟩
  | false => exact .inr ⟨find?_of_not_hasState hi, find?_of_not_hasState (h.symm.trans hi)⟩

/-! ## Lists -/

/-- Lists that are sorted do not show the order in which anything was stored. -/
theorem ids_eq : g.ids = k.ids := by
  refine g.ids_sorted.eq_of_mem_iff k.ids_sorted fun id => ?_
  rw [mem_ids, mem_ids, hg.hasState_eq hk]

theorem hasEdge_eq (src dst : StateId) : g.hasEdge src dst = k.hasEdge src dst := by
  rw [Bool.eq_iff_iff, hasEdge_iff, hasEdge_iff, hg.succs, hk.succs]

theorem edges_eq : g.edges = k.edges := by
  refine (edges_sorted hg.wf).eq_of_mem_iff (edges_sorted hk.wf) fun ⟨u, w⟩ => ?_
  rw [mem_edges, mem_edges, hg.succs, hk.succs]

theorem size_eq : g.size = k.size := by rw [← length_ids, ← length_ids, hg.ids_eq hk]

theorem numEdges_eq : g.numEdges = k.numEdges := by
  rw [← length_edges, ← length_edges, hg.edges_eq hk]

theorem sinks_eq : g.sinks = k.sinks := by
  refine (sinks_sorted hg.wf).eq_of_mem_iff (sinks_sorted hk.wf) fun s => ?_
  rw [mem_sinks, mem_sinks]
  refine exists_congr fun id => ?_
  rw [hg.state?_eq hk, ← List.length_eq_zero_iff, (hg.succIds_perm hk id).length_eq,
    List.length_eq_zero_iff]

theorem standsAt_iff (ip : Address) (s : State) : g.StandsAt ip s ↔ k.StandsAt ip s := by
  have h : (∃ id, g.state? id = some s) ↔ ∃ id, k.state? id = some s :=
    exists_congr fun id => by rw [hg.state?_eq hk]
  rw [StandsAt, StandsAt, h]

/-- The latest state is decided by the ids, so the order of the vertices does not show. -/
theorem latestAt_eq (ip : Address) : g.latestAt ip = k.latestAt ip := by
  cases hl : k.latestAt ip with
  | none =>
    rw [latestAt_eq_none_iff] at hl ⊢
    intro s hs
    exact hl s ((hg.standsAt_iff hk ip s).1 hs)
  | some s =>
    rw [latestAt_eq_some_iff hk.wf] at hl
    rw [latestAt_eq_some_iff hg.wf]
    exact ⟨(hg.standsAt_iff hk ip s).2 hl.1, fun t ht => hl.2 t ((hg.standsAt_iff hk ip t).1 ht)⟩

end Represents

/-! ## Answers -/

namespace Represents

variable {d : Digraph} (hg : Represents g d) (hk : Represents k d)

include hg hk

theorem counter_eq : g.counter = k.counter := hg.counter.trans hk.counter.symm

/-- Each update ends and reports alike on both sides, one lemma for each kind. -/
theorem seen_start (ip : Address) (c : Configuration) :
    (Graph.start ip c).seen g = (Graph.start ip c).seen k := by
  by_cases hz : g.size = 0
  · have hz' : k.size = 0 := (hg.size_eq hk).symm.trans hz
    cases hv : InitialValue.value c with
    | error e =>
      rw [Action.seen_of_run (run_start_of_fault hz ip hv),
        Action.seen_of_run (run_start_of_fault hz' ip hv)]
    | ok value =>
      rw [Action.seen_of_run (run_start_of_value hz ip hv),
        Action.seen_of_run (run_start_of_value hz' ip hv)]
  · have hz' : k.size ≠ 0 := fun h => hz ((hg.size_eq hk).trans h)
    rw [Action.seen_of_run (run_start_of_nonempty hz ip c),
      Action.seen_of_run (run_start_of_nonempty hz' ip c), hg.size_eq hk]

theorem seen_add (s : State) :
    (Answer.ofVertex <$> Graph.add s).seen g = (Answer.ofVertex <$> Graph.add s).seen k := by
  rw [Action.seen_map, Action.seen_map]
  rcases hg.find?_cases hk s.id with ⟨v, w, hv, hw⟩ | ⟨hv, hw⟩
  · rw [Action.seen_of_run (run_add_of_present hv), Action.seen_of_run (run_add_of_present hw)]
    simp only [Except.map, hg.ofVertex_eq hk hv hw]
  · rw [Action.seen_of_run (run_add_of_absent (hasState_of_absent hv)),
      Action.seen_of_run (run_add_of_absent (hasState_of_absent hw))]

theorem seen_remove (s : State) : (Graph.remove s).seen g = (Graph.remove s).seen k := by
  rcases hg.find?_cases hk s.id with ⟨v, w, hv, hw⟩ | ⟨hv, hw⟩
  · rw [Action.seen_of_run (hg.wf.run_remove hv), Action.seen_of_run (hk.wf.run_remove hw)]
  · rw [Action.seen_of_run (run_remove_of_absent (hasState_of_absent hv)),
      Action.seen_of_run (run_remove_of_absent (hasState_of_absent hw))]

theorem seen_link (src dst : StateId) : (Graph.link src dst).seen g = (Graph.link src dst).seen k := by
  rcases hg.find?_cases hk src with ⟨v, v', hv, hv'⟩ | ⟨hv, hv'⟩
  · rcases hg.find?_cases hk dst with ⟨w, w', hw, hw'⟩ | ⟨hw, hw'⟩
    · have hs := hg.state?_eq hk src
      have hd := hg.state?_eq hk dst
      rw [state?_of_find hv, state?_of_find hv'] at hs
      rw [state?_of_find hw, state?_of_find hw'] at hd
      rw [Action.seen_of_run (hg.wf.run_link hv hw), Action.seen_of_run (hk.wf.run_link hv' hw'),
        Option.some.inj hs, Option.some.inj hd]
    · rw [Action.seen_of_run (run_link_of_absent_target (hasState_of_find hv) (hasState_of_absent hw)),
        Action.seen_of_run (run_link_of_absent_target (hasState_of_find hv') (hasState_of_absent hw'))]
  · rw [Action.seen_of_run (run_link_of_absent_source (hasState_of_absent hv) dst),
      Action.seen_of_run (run_link_of_absent_source (hasState_of_absent hv') dst)]

theorem seen_unlink (src dst : State) : (Graph.unlink src dst).seen g = (Graph.unlink src dst).seen k := by
  have hs := hg.hasState_eq hk src.id
  have hd := hg.hasState_eq hk dst.id
  cases hu : g.hasState src.id with
  | false =>
    rw [Action.seen_of_run (run_unlink_of_absent (.inl hu)),
      Action.seen_of_run (run_unlink_of_absent (.inl (hs.symm.trans hu)))]
  | true =>
    cases hw : g.hasState dst.id with
    | false =>
      rw [Action.seen_of_run (run_unlink_of_absent (.inr hw)),
        Action.seen_of_run (run_unlink_of_absent (.inr (hd.symm.trans hw)))]
    | true =>
      rw [Action.seen_of_run (run_unlink_of_present hu hw),
        Action.seen_of_run (run_unlink_of_present (hs.symm.trans hu) (hd.symm.trans hw))]

theorem seen_duplicate (s : State) : (Graph.duplicate s).seen g = (Graph.duplicate s).seen k := by
  have hn := hg.hasState_eq hk g.counter.next
  have hc := hg.counter_eq hk
  cases hi : g.hasState g.counter.next with
  | true =>
    rw [hi, hc] at hn
    rw [Action.seen_of_run (run_duplicate_of_present hi s),
      Action.seen_of_run (run_duplicate_of_present hn.symm s), hc]
  | false =>
    rw [hi, hc] at hn
    have hcopy : g.copyOf s = k.copyOf s := by rw [copyOf, copyOf, hc]
    rw [Action.seen_of_run (run_duplicate_of_absent hi s),
      Action.seen_of_run (run_duplicate_of_absent hn.symm s), hcopy]

theorem seen_change (id : StateId) (c : State.Change) :
    (Graph.change id c).seen g = (Graph.change id c).seen k := by
  have hs := hg.hasState_eq hk id
  cases hi : g.hasState id with
  | true =>
    rw [Action.seen_of_run (run_change_of_present hi c),
      Action.seen_of_run (run_change_of_present (hs.symm.trans hi) c)]
  | false =>
    rw [Action.seen_of_run (run_change_of_absent hi c),
      Action.seen_of_run (run_change_of_absent (hs.symm.trans hi) c)]

/-- An update is answered, fails and reports alike on both sides. -/
theorem seen_update (u : Update) : u.action.seen g = u.action.seen k := by
  cases u with
  | start ip c => rw [Update.action, Action.seen_map, Action.seen_map, hg.seen_start hk]
  | add s => exact hg.seen_add hk s
  | remove s => rw [Update.action, Action.seen_map, Action.seen_map, hg.seen_remove hk]
  | link src dst => rw [Update.action, Action.seen_map, Action.seen_map, hg.seen_link hk]
  | unlink src dst => rw [Update.action, Action.seen_map, Action.seen_map, hg.seen_unlink hk]
  | duplicate s => rw [Update.action, Action.seen_map, Action.seen_map, hg.seen_duplicate hk]
  | change id c => rw [Update.action, Action.seen_map, Action.seen_map, hg.seen_change hk]
  | issue =>
    show (Except.ok (Answer.id g.counter.next), _) = (Except.ok (Answer.id k.counter.next), _)
    rw [hg.counter_eq hk]
    rfl
  | observe id => rfl
  | reset last => rfl

/-- The neighbours that lists with the same members name. -/
theorem neighbours_eq {l m : List StateId} (h : l.Perm m) :
    Answer.neighbours (l.filterMap g.state?) = .neighbours (m.filterMap k.state?) := by
  rw [funext (hg.state?_eq hk)]
  exact congrArg Answer.neighbours (Multiset.coe_eq_coe.2 (h.filterMap k.state?))

theorem succs_eq (id : StateId) :
    (g.succs id).map (Answer.neighbours ·) = (k.succs id).map (Answer.neighbours ·) := by
  rcases hg.find?_cases hk id with ⟨v, w, hv, hw⟩ | ⟨hv, hw⟩
  · rw [succs_of_find hg.wf hv, succs_of_find hk.wf hw]
    exact congrArg Except.ok (hg.neighbours_eq hk (hg.succIds_perm hk id))
  · rw [succs_of_absent hv, succs_of_absent hw]

theorem preds_eq (id : StateId) :
    (g.preds id).map (Answer.neighbours ·) = (k.preds id).map (Answer.neighbours ·) := by
  rcases hg.find?_cases hk id with ⟨v, w, hv, hw⟩ | ⟨hv, hw⟩
  · rw [preds_of_find hg.wf hv, preds_of_find hk.wf hw]
    exact congrArg Except.ok (hg.neighbours_eq hk (hg.predIds_perm hk id))
  · rw [preds_of_absent hv, preds_of_absent hw]

theorem seen_pred (s : State) : (Graph.pred s).seen g = (Graph.pred s).seen k := by
  have hi := hg.hasState_eq hk s.id
  have hp := hg.predIds_perm hk s.id
  cases hs : g.hasState s.id with
  | false =>
    rw [Action.seen_of_run (run_pred_of_absent hs),
      Action.seen_of_run (run_pred_of_absent (hi.symm.trans hs))]
  | true =>
    -- of the list only its length shows, and its member where there is one alone
    match hl : g.predIds s.id with
    | [] =>
      rw [hl] at hp
      rw [Action.seen_of_run (run_pred_of_none hs hl),
        Action.seen_of_run (run_pred_of_none (hi.symm.trans hs) hp.nil_eq.symm)]
    | [p] =>
      rw [hl] at hp
      have hv := hg.wf.preds_closed s.id p (hl ▸ List.mem_singleton_self p)
      obtain ⟨t, ht⟩ := hasState_iff.1 hv
      have ht' := (hg.state?_eq hk p).symm.trans ht
      rw [Action.seen_of_run (run_pred_of_one hl ht),
        Action.seen_of_run (run_pred_of_one (List.singleton_perm.1 hp).symm ht')]
    | p :: q :: l =>
      have hm : 2 ≤ (g.predIds s.id).length := by rw [hl]; simp
      have hm' : 2 ≤ (k.predIds s.id).length := hp.length_eq ▸ hm
      rw [Action.seen_of_run (run_pred_of_many hm), Action.seen_of_run (run_pred_of_many hm'),
        hp.length_eq]

theorem seen_latest (ip : Address) : (Graph.latest ip).seen g = (Graph.latest ip).seen k := by
  rw [Action.seen, Action.seen, run_latest, run_latest, hg.latestAt_eq hk]
  cases k.latestAt ip <;> rfl

theorem node_eq (id : StateId) :
    (g.node id).map Answer.ofVertex = (k.node id).map Answer.ofVertex := by
  rcases hg.find?_cases hk id with ⟨v, w, hv, hw⟩ | ⟨hv, hw⟩
  · rw [node, node, lookup_of_find hv, lookup_of_find hw]
    exact congrArg Except.ok (hg.ofVertex_eq hk hv hw)
  · rw [node, node, lookup_of_absent hv, lookup_of_absent hw]

/-! ## Text and checkpoints -/

/-- What is done with the state of a vertex is the same. -/
theorem bind_node_eq {σ α : Type} (id : StateId) (f : State → Action σ α) :
    (do f (← Action.ofExcept (g.node id)).state) = (do f (← Action.ofExcept (k.node id)).state) := by
  have hs := hg.state?_eq hk id
  rcases hg.find?_cases hk id with ⟨v, w, hv, hw⟩ | ⟨hv, hw⟩
  · rw [state?_of_find hv, state?_of_find hw] at hs
    rw [node, node, lookup_of_find hv, lookup_of_find hw]
    show (pure v >>= fun v => f v.state) = (pure w >>= fun v => f v.state)
    rw [pure_bind, pure_bind, Option.some.inj hs]
  · rw [node, node, lookup_of_absent hv, lookup_of_absent hw]

/-- The same text is written, and it ends in the same way. -/
theorem write_eq (loglevel : UInt32) : g.write loglevel = k.write loglevel := by
  have hv := funext fun id => hg.bind_node_eq hk id (writeVertex loglevel id)
  rw [write, write, hv, hg.ids_eq hk, hg.edges_eq hk]

theorem dump_eq (loglevel : UInt32) : g.dump loglevel = k.dump loglevel := by
  rw [dump, dump, hg.write_eq hk]

theorem checkpointStates_eq : Checkpoint.states g = Checkpoint.states k := by
  show g.ids.filterMap g.state? = k.ids.filterMap k.state?
  rw [hg.ids_eq hk, funext (hg.state?_eq hk)]

/-- Checkpoints are the same, field by field. -/
theorem fields_eq : Checkpoint.fields g = Checkpoint.fields k := by
  rw [Checkpoint.fields, Checkpoint.fields, hg.checkpointStates_eq hk, hg.edges_eq hk,
    hg.counter_eq hk]

theorem save_eq {σ : Type} [FileSystem σ] (path : String) :
    (Checkpoint.save path g : Action σ Unit) = Checkpoint.save path k := by
  rw [Checkpoint.save, Checkpoint.save, hg.fields_eq hk, hg.checkpointStates_eq hk, hg.edges_eq hk]

/-! ## Runs -/

/-- A question is answered and reports alike on both sides. -/
theorem seen_query (q : Query) : q.action.seen g = q.action.seen k := by
  cases q with
  | size => rw [Query.action, Action.seen_get_map, Action.seen_get_map, hg.size_eq hk]
  | numEdges => rw [Query.action, Action.seen_get_map, Action.seen_get_map, hg.numEdges_eq hk]
  | lastId => rw [Query.action, Action.seen_get_map, Action.seen_get_map, hg.counter_eq hk]
  | hasState id => rw [Query.action, Action.seen_get_map, Action.seen_get_map, hg.hasState_eq hk]
  | hasEdge src dst => rw [Query.action, Action.seen_get_map, Action.seen_get_map, hg.hasEdge_eq hk]
  | node id => rw [Query.action, Action.seen_get_ofExcept, Action.seen_get_ofExcept, hg.node_eq hk]
  | ids => rw [Query.action, Action.seen_get_map, Action.seen_get_map, hg.ids_eq hk]
  | edges => rw [Query.action, Action.seen_get_map, Action.seen_get_map, hg.edges_eq hk]
  | sinks => rw [Query.action, Action.seen_get_map, Action.seen_get_map, hg.sinks_eq hk]
  | succs id => rw [Query.action, Action.seen_get_ofExcept, Action.seen_get_ofExcept, hg.succs_eq hk]
  | preds id => rw [Query.action, Action.seen_get_ofExcept, Action.seen_get_ofExcept, hg.preds_eq hk]
  | pred s => rw [Query.action, Action.seen_map, Action.seen_map, hg.seen_pred hk]
  | latest ip => rw [Query.action, Action.seen_map, Action.seen_map, hg.seen_latest hk]
  | dump loglevel =>
    rw [Query.action, Action.seen_get_ofExcept, Action.seen_get_ofExcept, hg.dump_eq hk]

theorem seen_call (c : Call) : c.action.seen g = c.action.seen k := by
  cases c with
  | update u => exact hg.seen_update hk u
  | query q => exact hg.seen_query hk q

end Represents

/-- Automata that are one plain graph show the same along any calls. -/
theorem Represents.trace_eq {d : Digraph} (hg : Represents g d) (hk : Represents k d)
    (cs : List Call) : trace g cs = trace k cs := by
  induction cs generalizing g k d with
  | nil => rfl
  | cons c cs ih => rw [trace, trace, hg.seen_call hk, ih (hg.afterCall c) (hk.afterCall c)]

/-- The history of an automaton does not show. Whatever is called on two equivalent automata, both
answer, fail and report alike, call by call, and they stay equivalent; then their texts are the
same, and so are their checkpoints and what is said while one is written. -/
theorem history_independent (hg : g.WF) (hk : k.WF) (h : Equivalent g k) (cs : List Call) :
    trace g cs = trace k cs ∧
    Equivalent (g.afterCalls cs) (k.afterCalls cs) ∧
    (∀ loglevel, (g.afterCalls cs).dump loglevel = (k.afterCalls cs).dump loglevel) ∧
    Checkpoint.fields (g.afterCalls cs) = Checkpoint.fields (k.afterCalls cs) ∧
    ∀ (σ : Type) [FileSystem σ] path,
      (Checkpoint.save path (g.afterCalls cs) : Action σ Unit) =
        Checkpoint.save path (k.afterCalls cs) := by
  have hk' : Represents k g.view := (equivalent_iff_view_eq.1 h) ▸ hk.represents
  have ha := hg.represents.afterCalls cs
  have hb := hk'.afterCalls cs
  refine ⟨hg.represents.trace_eq hk' cs, ?_, ha.dump_eq hb, ha.fields_eq hb,
    fun _ _ => ha.save_eq hb⟩
  exact equivalent_iff_view_eq.2 (ha.view_eq.trans hb.view_eq.symm)

/-- Two vertices and two edges, made in one order. -/
def loopLast : Graph := afterAll {} [.add { id := 3 }, .add { id := 5 }, .link 3 5, .link 3 3]

/-- The same vertices and edges, made in the other order. -/
def loopFirst : Graph := afterAll {} [.add { id := 5 }, .add { id := 3 }, .link 3 3, .link 3 5]

theorem history_independent_loop :
    loopLast.WF ∧ loopFirst.WF ∧ Equivalent loopLast loopFirst ∧ loopLast ≠ loopFirst ∧
      ∀ cs, trace loopLast cs = trace loopFirst cs := by
  have hl : loopLast.WF := WF.empty.afterAll _
  have hf : loopFirst.WF := WF.empty.afterAll _
  have hk : loopLast.vertices.keys = [3, 5] := rfl
  have hs : ∀ id ∈ loopLast.vertices.keys, loopLast.state? id = loopFirst.state? id := by
    rw [hk]
    exact List.forall_mem_cons.2 ⟨by decide, List.forall_mem_singleton.2 (by decide)⟩
  have hn : ∀ id ∈ loopLast.vertices.keys, (loopLast.succIds id).Perm (loopFirst.succIds id) := by
    rw [hk]
    exact List.forall_mem_cons.2 ⟨by decide, List.forall_mem_singleton.2 (by decide)⟩
  have he : Equivalent loopLast loopFirst := equivalent_of_keys (by decide) hs hn rfl
  exact ⟨hl, hf, he, by decide, fun cs => (history_independent hl hf he cs).1⟩

end FlowAutomaton.Graph
