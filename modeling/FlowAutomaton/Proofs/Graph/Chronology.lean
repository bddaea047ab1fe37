/-
Neighbours come in the order in which their edges were made. An edge is made by a call that links
two vertices between which there was none, so an edge that is removed, or that goes away with one of
its ends, is made anew when it comes back. The time of an edge is the position of the last call
that made it.

A single update puts at most one id at the end of a list of neighbours, the one that it links, and
otherwise leaves the list as it is or takes ids out of it (`Becomes.succIds`, `Becomes.predIds`).
So ids that stay keep their order, and a new one comes after all others (`byCreation_of_run`).
-/
import FlowAutomaton.Proofs.Graph.Neighbours
import Mathlib.Data.List.Induction

namespace FlowAutomaton.Graph

variable {g : Graph}

/-! ## What an update makes of an automaton -/

/-- What an update makes of an automaton, as far as its vertices are concerned. -/
inductive Becomes (g : Graph) : Update → Graph → Prop where
  /-- At most the counter changes. -/
  | same (u : Update) (c : Counter) : Becomes g u (g.withCounter c)
  | vertex (u : Update) (c : Counter) {s : State} (hs : g.hasState s.id = false) :
    Becomes g u ((g.withCounter c).withState s)
  | noVertex (u : Update) {id : StateId} {v : Vertex} (hv : g.vertices.find? id = some v) :
    Becomes g u (g.withoutVertex v)
  | edge {src dst : StateId} (hs : g.hasState src = true) (hd : g.hasState dst = true) :
    Becomes g (.link src dst) (g.withEdge src dst)
  | noEdge (u : Update) (src dst : StateId) : Becomes g u (g.withoutEdge src dst)
  | content (u : Update) (id : StateId) (c : State.Change) :
    Becomes g u (g.mapState id (·.change c))

/-- An update that changes nothing. -/
theorem Becomes.unchanged (g : Graph) (u : Update) : g.Becomes u g := .same u g.counter

theorem WF.becomes_start (h : g.WF) (ip : Address) (c : Configuration) :
    g.Becomes (.start ip c) ((start ip c).run g).state := by
  by_cases hz : g.size = 0
  · have hroot : g.hasState rootId = false :=
      hasState_eq_false_iff.2 (h.represents.size_eq_zero_iff.1 hz rootId)
    cases hv : InitialValue.value c with
    | error e =>
      rw [run_start_of_fault hz ip hv]
      exact .unchanged g _
    | ok value =>
      rw [run_start_of_value hz ip hv]
      exact .vertex _ _ (s := rootState ip c value) hroot
  · rw [run_start_of_nonempty hz]
    exact .unchanged g _

theorem WF.becomes (h : g.WF) (u : Update) : g.Becomes u (g.after u) := by
  have map {α : Type} {f : α → Answer} {x : Action Graph α}
      (hx : g.Becomes u (x.run g).state) : g.Becomes u ((f <$> x).run g).state := by
    rw [Action.run_map]
    exact hx
  cases u with
  | start ip c => exact map (h.becomes_start ip c)
  | add s =>
    refine map ?_
    cases hs : g.hasState s.id with
    | true =>
      obtain ⟨v, hv⟩ := find?_of_hasState hs
      rw [run_add_of_present hv]
      exact .unchanged g _
    | false =>
      rw [run_add_of_absent hs]
      exact .vertex _ _ hs
  | remove s =>
    refine map ?_
    cases hs : g.hasState s.id with
    | true =>
      obtain ⟨v, hv⟩ := find?_of_hasState hs
      rw [h.run_remove hv]
      exact .noVertex _ hv
    | false =>
      rw [run_remove_of_absent hs]
      exact .unchanged g _
  | link src dst =>
    refine map ?_
    cases hs : g.hasState src with
    | false =>
      rw [run_link_of_absent_source hs]
      exact .unchanged g _
    | true =>
      cases hd : g.hasState dst with
      | false =>
        rw [run_link_of_absent_target hs hd]
        exact .unchanged g _
      | true =>
        obtain ⟨v, hv⟩ := find?_of_hasState hs
        obtain ⟨w, hw⟩ := find?_of_hasState hd
        rw [h.run_link hv hw]
        exact .edge hs hd
  | unlink src dst =>
    refine map ?_
    cases hs : g.hasState src.id with
    | false =>
      rw [run_unlink_of_absent (.inl hs)]
      exact .unchanged g _
    | true =>
      cases hd : g.hasState dst.id with
      | false =>
        rw [run_unlink_of_absent (.inr hd)]
        exact .unchanged g _
      | true =>
        rw [run_unlink_of_present hs hd]
        exact .noEdge _ src.id dst.id
  | duplicate s =>
    refine map ?_
    cases hn : g.hasState g.counter.next with
    | true =>
      rw [run_duplicate_of_present hn]
      exact .same _ _
    | false =>
      rw [run_duplicate_of_absent hn]
      exact .vertex _ _ (s := g.copyOf s) hn
  | change id c =>
    refine map ?_
    cases hi : g.hasState id with
    | true =>
      rw [run_change_of_present hi]
      exact .content _ id c
    | false =>
      rw [run_change_of_absent hi]
      exact .unchanged g _
  | issue => exact .same _ g.counter.advance
  | observe id => exact .same _ (g.counter.observe id)
  | reset last => exact .same _ ⟨last⟩

/-! ## What an update makes of a list of neighbours -/

/-- A list of neighbours after an update: ids are left out, or a new one that is linked is put at
the end. -/
def Continues (linked : StateId → Prop) (before after : List StateId) : Prop :=
  after.Sublist before ∨ ∃ id, linked id ∧ id ∉ before ∧ after = before ++ [id]

namespace Continues

variable {linked : StateId → Prop}

theorem of_eq {before after : List StateId} (h : after = before) : Continues linked before after :=
  .inl (h ▸ List.Sublist.refl _)

theorem removed (id : StateId) (ids : List StateId) :
    Continues linked ids (removeAdjacent ids id) :=
  .inl List.filter_sublist

/-- An id is put into one of a family of lists. -/
theorem insertAt {lists : StateId → List StateId} {src dst v : StateId}
    (h : v = src → linked dst) :
    Continues linked (lists v) (if v = src then insertAdjacent (lists src) dst else lists v) := by
  by_cases hv : v = src
  · subst hv
    rw [if_pos rfl, insertAdjacent]
    split
    · exact of_eq rfl
    · rename_i hdst
      exact .inr ⟨dst, h rfl, hdst, rfl⟩
  · rw [if_neg hv]
    exact of_eq rfl

/-- An id is taken out of one of a family of lists. -/
theorem removeAt {lists : StateId → List StateId} {src dst v : StateId} :
    Continues linked (lists v) (if v = src then removeAdjacent (lists src) dst else lists v) := by
  by_cases hv : v = src
  · subst hv
    rw [if_pos rfl]
    exact removed dst _
  · rw [if_neg hv]
    exact of_eq rfl

/-- A list goes away with its vertex, or the vertex is taken out of it. -/
theorem withoutVertex {ids : List StateId} {p q : Prop} [Decidable p] [Decidable q]
    {id : StateId} :
    Continues linked ids (if p then [] else if q then removeAdjacent ids id else ids) := by
  split
  · exact .inl (List.nil_sublist ids)
  · split
    · exact removed id ids
    · exact of_eq rfl

end Continues

theorem Becomes.succIds {u : Update} {k : Graph} (h : g.Becomes u k) (v : StateId) :
    Continues (fun w => u = .link v w) (g.succIds v) (k.succIds v) := by
  cases h with
  | same _ c => exact .of_eq rfl
  | vertex _ c hs => exact .of_eq (succIds_withState v (g := g.withCounter c) hs)
  | noVertex _ hv =>
    rw [succIds_withoutVertex]
    exact .withoutVertex
  | edge hs hd =>
    rw [succIds_withEdge v hs]
    exact .insertAt fun hv => by rw [hv]
  | noEdge _ src dst =>
    rw [succIds_withoutEdge]
    exact .removeAt
  | content _ id c => exact .of_eq (succIds_mapState g id v _)

theorem Becomes.predIds {u : Update} {k : Graph} (h : g.Becomes u k) (v : StateId) :
    Continues (fun w => u = .link w v) (g.predIds v) (k.predIds v) := by
  cases h with
  | same _ c => exact .of_eq rfl
  | vertex _ c hs => exact .of_eq (predIds_withState v (g := g.withCounter c) hs)
  | noVertex _ hv =>
    rw [predIds_withoutVertex]
    exact .withoutVertex
  | @edge src dst hs hd =>
    rw [predIds_withEdge v src hd]
    exact .insertAt fun hv => by rw [hv]
  | noEdge _ src dst =>
    rw [predIds_withoutEdge]
    exact .removeAt
  | content _ id c => exact .of_eq (predIds_mapState g id v _)

/-! ## The times of edges -/

/-- The automaton after the first calls of a run on the empty one. -/
def afterFirst (cs : List Call) (i : Nat) : Graph := afterCalls {} (cs.take i)

/-- The call at a position makes an edge: it links two vertices between which there was none. -/
structure Creates (cs : List Call) (i : Nat) (e : StateId × StateId) : Prop where
  call : cs[i]? = some (.update (.link e.1 e.2))
  absent : (afterFirst cs i).hasEdge e.1 e.2 = false
  present : (afterFirst cs (i + 1)).hasEdge e.1 e.2 = true

/-- The call at a position makes an edge, which has been there ever since. -/
structure LastCreates (cs : List Call) (i : Nat) (e : StateId × StateId) : Prop where
  creates : Creates cs i e
  kept : ∀ j, i < j → j ≤ cs.length → (afterFirst cs j).hasEdge e.1 e.2 = true

/-- The edges to or from some ids come in the order in which they were last made. -/
structure ByCreation (cs : List Call) (edge : StateId → StateId × StateId)
    (ids : List StateId) : Prop where
  created : ∀ id ∈ ids, ∃ i, LastCreates cs i (edge id)
  increasing : ids.Pairwise fun a b =>
    ∀ i j, LastCreates cs i (edge a) → LastCreates cs j (edge b) → i < j

theorem afterCalls_concat (g : Graph) (cs : List Call) (c : Call) :
    g.afterCalls (cs ++ [c]) = (c.action.run (g.afterCalls cs)).state := by
  rw [afterCalls, List.foldl_append]
  rfl

theorem afterFirst_length (cs : List Call) : afterFirst cs cs.length = afterCalls {} cs := by
  rw [afterFirst, List.take_length]

theorem afterFirst_concat {cs : List Call} {i : Nat} (h : i ≤ cs.length) (c : Call) :
    afterFirst (cs ++ [c]) i = afterFirst cs i := by
  rw [afterFirst, List.take_append_of_le_length h]
  rfl

theorem afterFirst_concat_length (cs : List Call) (c : Call) :
    afterFirst (cs ++ [c]) (cs.length + 1) = afterCalls {} (cs ++ [c]) := by
  rw [← afterFirst_length, List.length_append]
  rfl

section

variable {cs : List Call} {c : Call} {e : StateId × StateId} {i : Nat}

theorem Creates.lt (h : Creates cs i e) : i < cs.length :=
  (List.getElem?_eq_some_iff.1 h.call).1

/-- No later call makes the edge. -/
theorem LastCreates.le {j : Nat} (hi : LastCreates cs i e) (hj : Creates cs j e) : j ≤ i := by
  by_contra hlt
  have hthere := hi.kept j (Nat.lt_of_not_le hlt) (Nat.le_of_lt hj.lt)
  rw [hj.absent] at hthere
  cases hthere

theorem LastCreates.unique {j : Nat} (hi : LastCreates cs i e) (hj : LastCreates cs j e) : i = j :=
  Nat.le_antisymm (hj.le hi.creates) (hi.le hj.creates)

/-- A further call changes nothing about the calls before it. -/
theorem creates_concat_of_lt (h : i < cs.length) : Creates (cs ++ [c]) i e ↔ Creates cs i e := by
  have hc : (cs ++ [c])[i]? = cs[i]? := List.getElem?_append_left h
  have hi := afterFirst_concat (Nat.le_of_lt h) c
  have hs := afterFirst_concat (Nat.succ_le_of_lt h) c
  constructor
  · rintro ⟨hcall, habsent, hpresent⟩
    exact ⟨hc ▸ hcall, hi ▸ habsent, hs ▸ hpresent⟩
  · rintro ⟨hcall, habsent, hpresent⟩
    exact ⟨hc.symm ▸ hcall, hi.symm ▸ habsent, hs.symm ▸ hpresent⟩

theorem creates_concat_length :
    Creates (cs ++ [c]) cs.length e ↔
      c = .update (.link e.1 e.2) ∧ (afterCalls {} cs).hasEdge e.1 e.2 = false ∧
        (afterCalls {} (cs ++ [c])).hasEdge e.1 e.2 = true := by
  have hc : (cs ++ [c])[cs.length]? = some c := List.getElem?_concat_length
  have hi : afterFirst (cs ++ [c]) cs.length = afterCalls {} cs := by
    rw [afterFirst_concat (Nat.le_refl _), afterFirst_length]
  have hs := afterFirst_concat_length cs c
  constructor
  · rintro ⟨hcall, habsent, hpresent⟩
    rw [hc] at hcall
    exact ⟨Option.some.inj hcall, hi ▸ habsent, hs ▸ hpresent⟩
  · rintro ⟨rfl, habsent, hpresent⟩
    exact ⟨hc, hi.symm ▸ habsent, hs.symm ▸ hpresent⟩

/-- An edge that is still there keeps its time. -/
theorem LastCreates.concat (h : LastCreates cs i e)
    (hthere : (afterCalls {} (cs ++ [c])).hasEdge e.1 e.2 = true) : LastCreates (cs ++ [c]) i e := by
  refine ⟨(creates_concat_of_lt h.creates.lt).2 h.creates, fun j hij hj => ?_⟩
  rw [List.length_append, List.length_singleton] at hj
  by_cases hle : j ≤ cs.length
  · rw [afterFirst_concat hle]
    exact h.kept j hij hle
  · obtain rfl : j = cs.length + 1 := by omega
    rw [afterFirst_concat_length]
    exact hthere

/-- An edge that was there before the last call has the time that it had then. -/
theorem LastCreates.of_concat (h : LastCreates (cs ++ [c]) i e)
    (hthere : (afterCalls {} cs).hasEdge e.1 e.2 = true) : LastCreates cs i e := by
  have hlt := h.creates.lt
  rw [List.length_append, List.length_singleton] at hlt
  by_cases hi : i < cs.length
  · refine ⟨(creates_concat_of_lt hi).1 h.creates, fun j hij hj => ?_⟩
    rw [← afterFirst_concat hj c]
    exact h.kept j hij (by rw [List.length_append]; omega)
  · -- the last call cannot make an edge that is there already
    obtain rfl : i = cs.length := by omega
    rw [(creates_concat_length.1 h.creates).2.1] at hthere
    cases hthere

/-- An edge that the last call makes has the time of that call. -/
theorem Creates.lastCreates (h : Creates (cs ++ [c]) cs.length e) :
    LastCreates (cs ++ [c]) cs.length e := by
  refine ⟨h, fun j hij hj => ?_⟩
  rw [List.length_append, List.length_singleton] at hj
  obtain rfl : j = cs.length + 1 := by omega
  exact h.present

end

/-! ## Runs -/

section

variable {cs : List Call} {c : Call} {edge : StateId → StateId × StateId} {ids : List StateId}

/-- Edges that stay keep their order. -/
theorem ByCreation.sublist (h : ByCreation cs edge ids) {ids' : List StateId}
    (hsub : ids'.Sublist ids)
    (hthere : ∀ id ∈ ids, (afterCalls {} cs).hasEdge (edge id).1 (edge id).2 = true)
    (hstill : ∀ id ∈ ids', (afterCalls {} (cs ++ [c])).hasEdge (edge id).1 (edge id).2 = true) :
    ByCreation (cs ++ [c]) edge ids' := by
  refine ⟨fun id hid => ?_, ?_⟩
  · obtain ⟨i, hi⟩ := h.created id (hsub.subset hid)
    exact ⟨i, hi.concat (hstill id hid)⟩
  · refine (h.increasing.sublist hsub).imp_of_mem ?_
    intro a b ha hb hab i j hi hj
    exact hab i j (hi.of_concat (hthere a (hsub.subset ha)))
      (hj.of_concat (hthere b (hsub.subset hb)))

/-- An edge that is made now comes after all others. -/
theorem ByCreation.concat (h : ByCreation cs edge ids) {id : StateId}
    (hthere : ∀ id ∈ ids, (afterCalls {} cs).hasEdge (edge id).1 (edge id).2 = true)
    (hstill : ∀ k ∈ ids ++ [id], (afterCalls {} (cs ++ [c])).hasEdge (edge k).1 (edge k).2 = true)
    (hnew : Creates (cs ++ [c]) cs.length (edge id)) :
    ByCreation (cs ++ [c]) edge (ids ++ [id]) := by
  have hold := h.sublist (List.Sublist.refl ids) hthere fun k hk =>
    hstill k (List.mem_append_left _ hk)
  refine ⟨fun k hk => ?_, List.pairwise_append.2 ⟨hold.increasing, List.pairwise_singleton _ _, ?_⟩⟩
  · rcases List.mem_append.1 hk with hk | hk
    · exact hold.created k hk
    · rw [List.mem_singleton.1 hk]
      exact ⟨_, hnew.lastCreates⟩
  · intro a ha b hb i j hi hj
    rw [List.mem_singleton.1 hb] at hj
    rw [hj.unique hnew.lastCreates]
    exact (hi.of_concat (hthere a ha)).creates.lt

/-- A list that is kept of every automaton, of which an update leaves out ids or puts the one that
it links at the end, is in the order of creation after every run. -/
theorem byCreation_of_run (edge : StateId → StateId × StateId) (list : Graph → List StateId)
    (hempty : list {} = [])
    (hmem : ∀ g : Graph, g.WF → ∀ id,
      id ∈ list g ↔ g.hasEdge (edge id).1 (edge id).2 = true)
    (hstep : ∀ g k : Graph, ∀ u, g.Becomes u k →
      Continues (fun id => u = .link (edge id).1 (edge id).2) (list g) (list k))
    (cs : List Call) : ByCreation cs edge (list (afterCalls {} cs)) := by
  -- from the end of the run: times are positions, which a further call does not move
  induction cs using List.reverseRecOn with
  | nil =>
    show ByCreation [] edge (list {})
    rw [hempty]
    exact ⟨fun _ h => absurd h List.not_mem_nil, List.Pairwise.nil⟩
  | append_singleton cs c ih =>
    have hwf : (afterCalls {} cs).WF := WF.empty.afterCalls cs
    have hwf' : (afterCalls {} (cs ++ [c])).WF := WF.empty.afterCalls (cs ++ [c])
    have hthere := fun id => (hmem _ hwf id).1
    have hstill := fun id => (hmem _ hwf' id).1
    cases c with
    | query q =>
      have hsame : afterCalls {} (cs ++ [.query q]) = afterCalls {} cs :=
        (afterCalls_concat {} cs (.query q)).trans (readOnly_query q _)
      have hkept := ih.sublist (c := .query q) (List.Sublist.refl _) hthere (by
        rw [hsame]
        exact hthere)
      rw [hsame]
      exact hkept
    | update u =>
      have hnext : afterCalls {} (cs ++ [.update u]) = (afterCalls {} cs).after u :=
        afterCalls_concat {} cs (.update u)
      rcases hstep _ _ u (hwf.becomes u) with hsub | ⟨id, hlink, hnew, happ⟩
      · rw [← hnext] at hsub
        exact ih.sublist hsub hthere hstill
      · rw [← hnext] at happ
        rw [happ] at hstill ⊢
        refine ih.concat hthere hstill (creates_concat_length.2 ⟨by rw [hlink], ?_, ?_⟩)
        · rw [Bool.eq_false_iff, ne_eq, ← hmem _ hwf]
          exact hnew
        · exact hstill id (List.mem_append_right _ (List.mem_singleton_self id))

end

/-- After every run from the empty automaton, the successors of a vertex are exactly the vertices to
which it has an edge, each once and in the order in which these edges were last made, and so are its
predecessors the vertices from which it has an edge. -/
theorem neighbours_by_creation (cs : List Call) (v : StateId)
    (hv : (afterCalls {} cs).hasState v = true) :
    ∃ l l', (afterCalls {} cs).succs v = .ok l ∧ (afterCalls {} cs).preds v = .ok l' ∧
      (afterCalls {} cs).Lists l (fun w => (afterCalls {} cs).hasEdge v w = true) ∧
      ByCreation cs (fun w => (v, w)) (l.map State.id) ∧
      (afterCalls {} cs).Lists l' (fun u => (afterCalls {} cs).hasEdge u v = true) ∧
      ByCreation cs (fun u => (u, v)) (l'.map State.id) := by
  have h : (afterCalls {} cs).WF := WF.empty.afterCalls cs
  obtain ⟨x, hx⟩ := find?_of_hasState hv
  have hs := byCreation_of_run (fun w => (v, w)) (·.succIds v) rfl
    (fun _ _ _ => hasEdge_iff.symm) (fun _ _ _ hb => hb.succIds v) cs
  have hp := byCreation_of_run (fun u => (u, v)) (·.predIds v) rfl
    (fun _ h _ => h.mem_predIds_iff) (fun _ _ _ hb => hb.predIds v) cs
  refine ⟨_, _, succs_of_find h hx, preds_of_find h hx, ?_, ?_, ?_, ?_⟩
  · exact (lists_filterMap_state? h (h.succs_nodup v) (h.succs_closed v)
      fun w => hasEdge_iff.symm).1
  · rw [map_id_filterMap_state? h (h.succs_closed v)]
    exact hs
  · exact (lists_filterMap_state? h (h.preds_nodup v) (h.preds_closed v)
      fun u => h.mem_predIds_iff).1
  · rw [map_id_filterMap_state? h (h.preds_closed v)]
    exact hp

/-- Of the edges from the first vertex one is linked a second time and then removed and made anew,
and one is made anew because its end was removed and came back. -/
def rewired : List Call :=
  [.add { id := 1 }, .add { id := 2 }, .add { id := 3 }, .link 1 2, .link 1 3, .link 1 1,
    .link 1 2, .unlink { id := 1 } { id := 2 }, .link 1 2, .remove { id := 3 }, .add { id := 3 },
    .link 2 3, .link 1 3].map .update

theorem neighbours_by_creation_rewired :
    (afterCalls {} rewired).hasState 1 = true ∧
      (afterCalls {} rewired).succs 1 = .ok [{ id := 1 }, { id := 2 }, { id := 3 }] ∧
      (afterCalls {} rewired).preds 3 = .ok [{ id := 2 }, { id := 1 }] ∧
      ByCreation rewired (fun w => (1, w)) [1, 2, 3] ∧
      ByCreation rewired (fun u => (u, 3)) [2, 1] := by
  have h1 : (afterCalls {} rewired).hasState 1 = true := by decide
  have h3 : (afterCalls {} rewired).hasState 3 = true := by decide
  have hs : (afterCalls {} rewired).succs 1 = .ok [{ id := 1 }, { id := 2 }, { id := 3 }] := rfl
  have hp : (afterCalls {} rewired).preds 3 = .ok [{ id := 2 }, { id := 1 }] := rfl
  obtain ⟨l, -, hl, -, -, hsuccs, -⟩ := neighbours_by_creation rewired 1 h1
  obtain ⟨-, m, -, hm, -, -, -, hpreds⟩ := neighbours_by_creation rewired 3 h3
  rw [hs] at hl
  rw [hp] at hm
  cases hl
  cases hm
  exact ⟨h1, hs, hp, hsuccs, hpreds⟩

end FlowAutomaton.Graph
