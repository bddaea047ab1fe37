/-
The order of neighbours after an automaton was saved and loaded. The edges of a checkpoint come by
source and then by target, and the reader adds them in that order, so the neighbours of each vertex
come back in increasing order of ids, whatever the order was in which their edges had been made.
They come back as they were exactly if they were in increasing order before.
-/
import FlowAutomaton.Proofs.Checkpoint.RoundTrip
import FlowAutomaton.Proofs.Graph.Neighbours

namespace FlowAutomaton

namespace Graph

/-! ## Neighbours in the order of edges -/

/-- Of the edges with an id at their one end, the ids at their other end, in the order of the
edges. -/
def endsOf (here there : StateId × StateId → StateId) (m : List (StateId × StateId))
    (id : StateId) : List StateId :=
  (m.filter (here · = id)).map there

/-- The ids to which edges lead from an id. -/
def targets : List (StateId × StateId) → StateId → List StateId := endsOf Prod.fst Prod.snd

/-- The ids from which edges lead to an id. -/
def sources : List (StateId × StateId) → StateId → List StateId := endsOf Prod.snd Prod.fst

section

variable {here there : StateId × StateId → StateId}

/-- The first edge changes the list at its one end, and the other edges go on from there. -/
theorem foldl_endsOf_cons (lists : StateId → List StateId) (e : StateId × StateId)
    (m : List (StateId × StateId)) (id : StateId) :
    (endsOf here there (e :: m) id).foldl insertAdjacent (lists id) =
      (endsOf here there m id).foldl insertAdjacent
        (if id = here e then insertAdjacent (lists (here e)) (there e) else lists id) := by
  unfold endsOf
  rw [List.filter_cons]
  by_cases hi : id = here e
  · simp [hi]
  · simp [hi, Ne.symm hi]

theorem endsOf_increase (hlt : ∀ a b, EdgeLT a b → here a = here b → there a < there b)
    {m : List (StateId × StateId)} (h : m.Pairwise EdgeLT) (id : StateId) :
    (endsOf here there m id).Pairwise (· < ·) := by
  refine List.pairwise_map.2 ((h.filter _).imp_of_mem fun ha hb hab => hlt _ _ hab ?_)
  have ha := of_decide_eq_true (List.mem_filter.1 ha).2
  have hb := of_decide_eq_true (List.mem_filter.1 hb).2
  exact ha.trans hb.symm

end

theorem targets_increase {m : List (StateId × StateId)} (h : m.Pairwise EdgeLT) (id : StateId) :
    (targets m id).Pairwise (· < ·) := by
  refine endsOf_increase (fun a b hab he => ?_) h id
  rcases hab with hab | ⟨-, hab⟩
  · rw [he] at hab
    exact absurd hab (UInt64.lt_irrefl _)
  · exact hab

theorem sources_increase {m : List (StateId × StateId)} (h : m.Pairwise EdgeLT) (id : StateId) :
    (sources m id).Pairwise (· < ·) := by
  refine endsOf_increase (fun a b hab he => ?_) h id
  rcases hab with hab | ⟨-, hab⟩
  · exact hab
  · rw [he] at hab
    exact absurd hab (UInt64.lt_irrefl _)

/-- Ids that are all new are put at the end. -/
theorem foldl_insertAdjacent {ids l : List StateId} (h : (ids ++ l).Nodup) :
    l.foldl insertAdjacent ids = ids ++ l := by
  induction l generalizing ids with
  | nil => exact (List.append_nil ids).symm
  | cons id l ih =>
    have hn : id ∉ ids := fun hm =>
      (List.nodup_append.1 h).2.2 id hm id List.mem_cons_self rfl
    rw [← List.singleton_append, ← List.append_assoc] at h
    rw [List.foldl_cons, insertAdjacent, if_neg hn, ih h, List.append_assoc, List.singleton_append]

theorem foldl_insertAdjacent_nil {l : List StateId} (h : l.Nodup) :
    l.foldl insertAdjacent [] = l := by
  have hl : ([] ++ l).Nodup := h
  exact foldl_insertAdjacent hl

/-! ## Adding states and edges -/

open FlowAutomaton.Checkpoint (linkPair)

/-- Edges that are added one after the other put their ends into the lists in that order. -/
theorem neighbours_after_links {g : Graph} (h : g.WF) {m : List (StateId × StateId)}
    (he : ∀ e ∈ m, g.hasState e.1 = true ∧ g.hasState e.2 = true) (id : StateId) :
    (g.afterAll (m.map linkPair)).succIds id = (targets m id).foldl insertAdjacent (g.succIds id) ∧
      (g.afterAll (m.map linkPair)).predIds id =
        (sources m id).foldl insertAdjacent (g.predIds id) := by
  induction m generalizing g with
  | nil => exact ⟨rfl, rfl⟩
  | cons e m ih =>
    obtain ⟨⟨hs, hd⟩, hm⟩ := List.forall_mem_cons.1 he
    have hlink : g.after (linkPair e) = g.withEdge e.1 e.2 := h.after_link hs hd
    have hstate : ∀ k, (g.withEdge e.1 e.2).hasState k = g.hasState k := fun k => by
      rw [Bool.eq_iff_iff, hasState_iff, hasState_iff, state?_withEdge]
    have hnext : (g.withEdge e.1 e.2).WF := hlink ▸ h.after (linkPair e)
    obtain ⟨hsucc, hpred⟩ := ih hnext fun e' he' => by
      rw [hstate, hstate]
      exact hm e' he'
    have hrun : g.afterAll ((e :: m).map linkPair) =
        (g.withEdge e.1 e.2).afterAll (m.map linkPair) := by
      rw [← hlink]
      rfl
    rw [hrun, hsucc, hpred, succIds_withEdge id hs, predIds_withEdge id e.1 hd]
    exact ⟨(foldl_endsOf_cons g.succIds e m id).symm, (foldl_endsOf_cons g.predIds e m id).symm⟩

theorem represents_adds (l : List State) :
    Represents (afterAll {} (l.map .add)) (l.foldl Digraph.add (view {})) := by
  have hr := WF.empty.represents.afterAll (l.map .add)
  rw [List.foldl_map] at hr
  exact hr

/-- States that are added to the empty automaton have no neighbours. -/
theorem neighbours_after_adds (l : List State) (id : StateId) :
    (afterAll {} (l.map .add)).succIds id = [] ∧ (afterAll {} (l.map .add)).predIds id = [] := by
  have hr := represents_adds l
  have hnone : ∀ u w, (u, w) ∉ (l.foldl Digraph.add (view {})).edges := fun u w he => by
    rw [Digraph.edges_foldl_add] at he
    cases he
  exact ⟨List.eq_nil_iff_forall_not_mem.2 fun w hw => hnone id w ((hr.succs id w).1 hw),
    List.eq_nil_iff_forall_not_mem.2 fun u hu => hnone u id ((hr.preds u id).1 hu)⟩

/-! ## The states of neighbours -/

/-- The states of ids in increasing order are those of the same ids in any order, sorted. -/
theorem filterMap_state?_of_increasing {g : Graph} (h : g.WF) {ids ids' : List StateId}
    (hlt : ids.Pairwise (· < ·)) (hn : ids'.Nodup) (hm : ∀ id, id ∈ ids ↔ id ∈ ids') :
    ids.filterMap g.state? = byId (ids'.filterMap g.state?) := by
  have hid : ∀ {id s}, g.state? id = some s → s.id = id := fun hs => h.id_eq _ _ hs
  have hsorted : (ids.filterMap g.state?).Pairwise IdLT := by
    refine List.pairwise_filterMap.2 (hlt.imp fun hlt s hs t ht => ?_)
    rw [IdLT, hid hs, hid ht]
    exact hlt
  have hnodup : (ids'.filterMap g.state?).Nodup :=
    hn.filterMap fun a b s ha hb => (hid ha).symm.trans (hid hb)
  refine hsorted.eq_of_mem_iff (byId_sorted hnodup fun s hs t ht => ?_) fun s => ?_
  · obtain ⟨_, -, hs⟩ := List.mem_filterMap.1 hs
    obtain ⟨_, -, ht⟩ := List.mem_filterMap.1 ht
    exact h.eq_of_id hs ht
  · rw [mem_byId, List.mem_filterMap, List.mem_filterMap]
    simp only [hm]

/-- Ids in increasing order name states in the order in which the same ids do in another order
exactly if that is increasing too. -/
theorem sameOrder_iff {g : Graph} (h : g.WF) {ids ids' : List StateId}
    (hlt : ids.Pairwise (· < ·)) (hv : ∀ id ∈ ids', g.hasState id = true)
    (hm : ∀ id, id ∈ ids ↔ id ∈ ids') :
    (Except.ok (ids.filterMap g.state?) : Except Fault (List State)) =
      .ok (ids'.filterMap g.state?) ↔ ids'.Pairwise (· < ·) := by
  constructor
  · intro he
    have hids := map_id_filterMap_state? h fun id hi => hv id ((hm id).1 hi)
    rw [Except.ok.inj he, map_id_filterMap_state? h hv] at hids
    rw [hids]
    exact hlt
  · intro hlt'
    rw [hlt.eq_of_mem_iff hlt' hm]

end Graph

namespace Checkpoint

open FlowAutomaton.Graph (Represents targets sources byId)

/-! ## Loading -/

/-- The neighbours of a vertex that is read come in the order in which the edges are stored. -/
theorem Accepted.neighbours {fs : List Field} {l : List State} {m : List (StateId × StateId)}
    {last : StateId} (h : Accepted fs l m last) (id : StateId) :
    (Graph.afterAll {} (replay l m last)).succIds id =
        (targets m id).foldl Graph.insertAdjacent [] ∧
      (Graph.afterAll {} (replay l m last)).predIds id =
        (sources m id).foldl Graph.insertAdjacent [] := by
  have hr := Graph.represents_adds l
  have he : ∀ e ∈ m, (Graph.afterAll {} (l.map .add)).hasState e.1 = true ∧
      (Graph.afterAll {} (l.map .add)).hasState e.2 = true := fun e he => by
    rw [hr.hasState, hr.hasState]
    exact ⟨(Digraph.hasState_foldl_add l e.1).2 (h.ends e he).1,
      (Digraph.hasState_foldl_add l e.2).2 (h.ends e he).2⟩
  obtain ⟨hsucc, hpred⟩ := Graph.neighbours_after_links hr.wf he id
  obtain ⟨hnil, hnil'⟩ := Graph.neighbours_after_adds l id
  rw [hnil] at hsucc
  rw [hnil'] at hpred
  rw [afterAll_replay]
  exact ⟨hsucc, hpred⟩

variable {σ : Type} [FileSystem σ]

/-- An automaton that was saved in an ordinary file is loaded as the same plain graph, and with the
neighbours of each vertex in increasing order. -/
theorem load_save_increasing {g : Graph} (h : g.WF)
    (hc : ∀ id, g.hasState id = true → id ≤ g.counter.last) {path : String} {st : σ}
    (hb : FileSystem.ReadsBack path st) (hs : ((save path g).run st).result = .ok ()) :
    ∃ k, ((load path).run ((save path g).run st).state).result = .ok k ∧ Represents k g.view ∧
      ∀ id, (k.succIds id).Pairwise (· < ·) ∧ (k.predIds id).Pairwise (· < ·) := by
  have ha := accepted_fields h hc
  obtain ⟨es, hk, hr⟩ := ha.run_replay path
  rw [ofStored_states h] at hr
  refine ⟨_, result_load (contents_of_save hb hs) hk, hr, fun id => ?_⟩
  obtain ⟨hsucc, hpred⟩ := ha.neighbours id
  have hlt := Graph.targets_increase (Graph.edges_sorted h) id
  have hlt' := Graph.sources_increase (Graph.edges_sorted h) id
  rw [hsucc, hpred, Graph.foldl_insertAdjacent_nil hlt.nodup,
    Graph.foldl_insertAdjacent_nil hlt'.nodup]
  exact ⟨hlt, hlt'⟩

/-- An automaton that was saved in an ordinary file is loaded with the same neighbours of each
vertex, but in increasing order of ids. They come in the order that they had exactly if that was
increasing. -/
theorem load_save_sorts {g : Graph} (h : g.WF)
    (hc : ∀ id, g.hasState id = true → id ≤ g.counter.last) {path : String} {st : σ}
    (hb : FileSystem.ReadsBack path st) (hs : ((save path g).run st).result = .ok ()) :
    ∃ k, ((load path).run ((save path g).run st).state).result = .ok k ∧ ∀ id,
      k.succs id = (g.succs id).map byId ∧ k.preds id = (g.preds id).map byId ∧
        (k.succs id = g.succs id ↔ (g.succIds id).Pairwise (· < ·)) ∧
        (k.preds id = g.preds id ↔ (g.predIds id).Pairwise (· < ·)) := by
  obtain ⟨k, hk, hr, hlt⟩ := load_save_increasing h hc hb hs
  have hg := h.represents
  have hstate : k.state? = g.state? := funext (hr.state?_eq hg)
  refine ⟨k, hk, fun id => ?_⟩
  obtain ⟨hsucc, hpred⟩ := hlt id
  have hmem := fun w => (hr.succIds_perm hg id).mem_iff (a := w)
  have hmem' := fun u => (hr.predIds_perm hg id).mem_iff (a := u)
  rcases hr.find?_cases hg id with ⟨v, w, hv, hw⟩ | ⟨hv, hw⟩
  · rw [Graph.succs_of_find hr.wf hv, Graph.preds_of_find hr.wf hv, Graph.succs_of_find h hw,
      Graph.preds_of_find h hw, hstate]
    refine ⟨?_, ?_, ?_, ?_⟩
    · exact congrArg Except.ok
        (Graph.filterMap_state?_of_increasing h hsucc (h.succs_nodup id) hmem)
    · exact congrArg Except.ok
        (Graph.filterMap_state?_of_increasing h hpred (h.preds_nodup id) hmem')
    · exact Graph.sameOrder_iff h hsucc (h.succs_closed id) hmem
    · exact Graph.sameOrder_iff h hpred (h.preds_closed id) hmem'
  · rw [Graph.succs_of_absent hv, Graph.preds_of_absent hv, Graph.succs_of_absent hw,
      Graph.preds_of_absent hw, Graph.succIds_of_absent hw, Graph.predIds_of_absent hw]
    exact ⟨rfl, rfl, iff_of_true rfl .nil, iff_of_true rfl .nil⟩

/-- Three vertices; the edge from the first to the third was made before that to the second. -/
def crossed : Graph :=
  Graph.afterAll {}
    [.add { id := 1 }, .add { id := 2 }, .add { id := 3 }, .link 1 3, .link 3 2, .link 1 2]

theorem crossed_le_counter (id : StateId) (hi : crossed.hasState id = true) :
    id ≤ crossed.counter.last := by
  have hle : ∀ id ∈ crossed.vertices.keys, id ≤ crossed.counter.last := by
    rw [show crossed.vertices.keys = [1, 2, 3] from rfl]
    exact List.forall_mem_cons.2 ⟨by decide,
      List.forall_mem_cons.2 ⟨by decide, List.forall_mem_singleton.2 (by decide)⟩⟩
  exact hle id (Graph.mem_keys_iff.2 hi)

theorem load_save_sorts_crossed :
    crossed.WF ∧ (∀ id, crossed.hasState id = true → id ≤ crossed.counter.last) ∧
      FileSystem.ReadsBack "c" ({} : Storage) ∧
      ((save "c" crossed).run ({} : Storage)).result = .ok () ∧
      ∃ k, ((load "c").run ((save "c" crossed).run ({} : Storage)).state).result = .ok k ∧
        k.succs 3 = crossed.succs 3 ∧ k.succs 1 ≠ crossed.succs 1 ∧
        k.preds 2 = (crossed.preds 2).map byId := by
  have h : crossed.WF := Graph.WF.empty.afterAll _
  have hb : FileSystem.ReadsBack "c" ({} : Storage) := Storage.readsBack rfl {}
  have hs : ((save "c" crossed).run ({} : Storage)).result = .ok () := by rfl
  obtain ⟨k, hk, hall⟩ := load_save_sorts h crossed_le_counter hb hs
  refine ⟨h, crossed_le_counter, hb, hs, k, hk, (hall 3).2.2.1.2 (by decide), fun he => ?_,
    (hall 2).2.1⟩
  have hlt := (hall 1).2.2.1.1 he
  exact absurd hlt (by decide)

/-- The successors of a vertex, and the predecessors of one, are loaded in another order than that
in which they were saved. -/
theorem crossed_reordered :
    crossed.WF ∧ (∀ id, crossed.hasState id = true → id ≤ crossed.counter.last) ∧
      FileSystem.ReadsBack "c" ({} : Storage) ∧
      ((save "c" crossed).run ({} : Storage)).result = .ok () ∧
      crossed.succs 1 = .ok [{ id := 3 }, { id := 2 }] ∧
      crossed.preds 2 = .ok [{ id := 3 }, { id := 1 }] ∧
      ∃ k, ((load "c").run ((save "c" crossed).run ({} : Storage)).state).result = .ok k ∧
        k.succs 1 = .ok [{ id := 2 }, { id := 3 }] ∧
        k.preds 2 = .ok [{ id := 1 }, { id := 3 }] := by
  have h : crossed.WF := Graph.WF.empty.afterAll _
  have hb : FileSystem.ReadsBack "c" ({} : Storage) := Storage.readsBack rfl {}
  have hs : ((save "c" crossed).run ({} : Storage)).result = .ok () := by rfl
  obtain ⟨k, hk, hr, hlt⟩ := load_save_increasing h crossed_le_counter hb hs
  have hg := h.represents
  have hstate : k.state? = crossed.state? := funext (hr.state?_eq hg)
  have hsucc : k.succIds 1 = [2, 3] := by
    refine (hlt 1).1.eq_of_mem_iff (by decide) fun w => ?_
    rw [(hr.succIds_perm hg 1).mem_iff, show crossed.succIds 1 = [3, 2] from rfl]
    simp [or_comm]
  have hpred : k.predIds 2 = [1, 3] := by
    refine (hlt 2).2.eq_of_mem_iff (by decide) fun u => ?_
    rw [(hr.predIds_perm hg 2).mem_iff, show crossed.predIds 2 = [3, 1] from rfl]
    simp [or_comm]
  obtain ⟨v, hv⟩ := Graph.find?_of_hasState ((hr.hasState_eq hg 1).trans (by decide))
  obtain ⟨w, hw⟩ := Graph.find?_of_hasState ((hr.hasState_eq hg 2).trans (by decide))
  refine ⟨h, crossed_le_counter, hb, hs, rfl, rfl, k, hk, ?_, ?_⟩
  · rw [Graph.succs_of_find hr.wf hv, hsucc, hstate]
    rfl
  · rw [Graph.preds_of_find hr.wf hw, hpred, hstate]
    rfl

end Checkpoint

end FlowAutomaton
