/-
How each operation of an automaton ends: with which answer or failure, in which automaton, and
with which events. What an operation does is said here once; no later proof opens its definition.
-/
import FlowAutomaton.Proofs.Action
import FlowAutomaton.Proofs.Graph.Lookup

namespace FlowAutomaton.Graph

open FlowAutomaton.Action

/-! ## Look-up -/

theorem lookup_of_find {g : Graph} {use : VertexUse} {id : StateId} {v : Vertex}
    (h : g.vertices.find? id = some v) : g.lookup use id = .ok v := by
  simp [lookup, h]

theorem lookup_of_absent {g : Graph} {use : VertexUse} {id : StateId}
    (h : g.vertices.find? id = none) : g.lookup use id = .error (.notVertex use id) := by
  simp [lookup, h]

/-- An action that needs a vertex has it, or fails in the name of the operation; either way it
changes nothing. -/
theorem run_need_of_find {g : Graph} {use : VertexUse} {id : StateId} {v : Vertex}
    (h : g.vertices.find? id = some v) : (need use id).run g = ⟨.ok v, g, []⟩ := by
  unfold need
  rw [run_bind_quiet (run_get g), run_ofExcept, lookup_of_find h]

theorem run_need_of_absent {g : Graph} {use : VertexUse} {id : StateId}
    (h : g.vertices.find? id = none) :
    (need use id).run g = ⟨.error (.notVertex use id), g, []⟩ := by
  unfold need
  rw [run_bind_quiet (run_get g), run_ofExcept, lookup_of_absent h]

/-! ## Vertices -/

/-- A state is stored under a new id only; another id is refused, and nothing changes. -/
theorem run_insert_of_absent {g : Graph} {s : State} (h : g.hasState s.id = false) :
    (insert s).run g = ⟨.ok { state := s }, g.withState s, []⟩ := by
  unfold insert
  rw [run_bind_quiet (run_get g)]
  simp only [show g.vertices.contains s.id = false from h, Bool.false_eq_true, if_false]
  rw [run_bind_quiet (run_modify _ g)]
  rfl

theorem run_insert_of_present {g : Graph} {s : State} (h : g.hasState s.id = true) :
    (insert s).run g = ⟨.error (.alreadyVertex s.id), g, []⟩ := by
  unfold insert
  rw [run_bind_quiet (run_get g)]
  simp only [show g.vertices.contains s.id = true from h, if_true]
  exact run_bind_failed (run_fail _ g)

/-- Adding a state whose id is that of a vertex does nothing and answers with the vertex as it is.
-/
theorem run_add_of_present {g : Graph} {s : State} {v : Vertex}
    (h : g.vertices.find? s.id = some v) : (add s).run g = ⟨.ok v, g, []⟩ := by
  unfold add
  rw [run_bind_quiet (run_get g), h]
  rfl

/-- Adding a state with a new id stores it and raises the counter to that id. -/
theorem run_add_of_absent {g : Graph} {s : State} (h : g.hasState s.id = false) :
    (add s).run g =
      ⟨.ok { state := s }, (g.withCounter (g.counter.observe s.id)).withState s,
        [.log "cfa" ("add " ++ s.label ++ "\n")]⟩ := by
  unfold add
  rw [run_bind_quiet (run_get g), find?_of_not_hasState h]
  simp only [log]
  rw [run_bind_emit, run_bind_quiet (t := g.withCounter (g.counter.observe s.id)) rfl,
    run_insert_of_absent (g := g.withCounter (g.counter.observe s.id)) h]

/-- The state of the vertex where an analysis starts. -/
def rootState (ip : Address) (c : Configuration) (value : Value) : State :=
  { id := rootId, ip := ip, value := value, context := ⟨c.addressSize, c.operandSize⟩ }

/-- A start is refused where there are vertices, before anything is reported. -/
theorem run_start_of_nonempty {g : Graph} (h : g.size ≠ 0) (ip : Address) (c : Configuration) :
    (start ip c).run g = ⟨.error (.notEmpty g.size), g, []⟩ := by
  unfold start
  rw [run_bind_quiet (run_get g)]
  simp only [show g.vertices.size ≠ 0 from h, ne_eq, not_false_eq_true, if_true]
  exact run_bind_failed (run_fail _ g)

/-- A start fails with the failure of the initial value, and then it has changed nothing. -/
theorem run_start_of_fault {g : Graph} (h : g.size = 0) (ip : Address) {c : Configuration}
    {e : Fault} (hv : InitialValue.value c = .error e) :
    (start ip c).run g = ⟨.error e, g, InitialValue.events c⟩ := by
  unfold start
  rw [run_bind_quiet (run_get g)]
  simp only [show g.vertices.size = 0 from h, ne_eq, not_true_eq_false, if_false]
  refine run_bind_failed ?_
  rw [InitialValue.run_ofConfiguration, hv]

/-- A start of an empty automaton numbers anew and stores the root with the initial value. -/
theorem run_start_of_value {g : Graph} (h : g.size = 0) (ip : Address) {c : Configuration}
    {value : Value} (hv : InitialValue.value c = .ok value) :
    (start ip c).run g =
      ⟨.ok { state := rootState ip c value }, (g.withCounter {}).withState (rootState ip c value),
        InitialValue.events c ++
          [.log "cfa" ("root state " ++ (rootState ip c value).label ++ "\n")]⟩ := by
  have hn : (g.withCounter {}).hasState rootId = false := by
    have he : g.vertices.entries = [] := List.length_eq_zero_iff.1 h
    simp [hasState, Vertices.contains, Vertices.find?, withCounter, he]
  have hv : (InitialValue.ofConfiguration c).run g = ⟨.ok value, g, InitialValue.events c⟩ := by
    rw [InitialValue.run_ofConfiguration, hv]
  unfold start
  rw [run_bind_quiet (run_get g)]
  simp only [show g.vertices.size = 0 from h, ne_eq, not_true_eq_false, if_false, log]
  rw [run_bind_of_ok hv, run_bind_quiet (t := g.withCounter {}) rfl, ← rootState,
    run_bind_quiet (run_insert_of_absent (s := rootState ip c value) hn), run_bind_emit]
  rfl

/-- The state that is made when a state is copied. -/
def copyOf (g : Graph) (s : State) : State := { s with id := g.counter.next }

/-- A copy under an id that is that of a vertex fails, and the id is used up. -/
theorem run_duplicate_of_present {g : Graph} (h : g.hasState g.counter.next = true) (s : State) :
    (duplicate s).run g =
      ⟨.error (.alreadyVertex g.counter.next), g.withCounter g.counter.advance,
        [.count "CFA.copy_state"]⟩ := by
  unfold duplicate
  rw [run_bind_emit, run_bind_quiet (run_get g),
    run_bind_quiet (t := g.withCounter g.counter.advance) rfl,
    run_bind_failed (run_insert_of_present (g := g.withCounter g.counter.advance)
      (s := { s with id := g.counter.next }) h)]

/-- A copy is stored under the next id, without edges. -/
theorem run_duplicate_of_absent {g : Graph} (h : g.hasState g.counter.next = false) (s : State) :
    (duplicate s).run g =
      ⟨.ok { state := g.copyOf s }, (g.withCounter g.counter.advance).withState (g.copyOf s),
        [.count "CFA.copy_state",
          .log "cfa" ("copy " ++ s.label ++ " into " ++ (g.copyOf s).label ++ "\n")]⟩ := by
  unfold duplicate copyOf
  rw [run_bind_emit, run_bind_quiet (run_get g),
    run_bind_quiet (t := g.withCounter g.counter.advance) rfl,
    run_bind_quiet (run_insert_of_absent (g := g.withCounter g.counter.advance)
      (s := { s with id := g.counter.next }) h), log, run_bind_emit]
  rfl

/-! ## Edges -/

/-- An edge needs both ends. The source is looked for first; a failure is counted like a success and
changes nothing. -/
theorem run_link_of_absent_source {g : Graph} {src : StateId} (h : g.hasState src = false)
    (dst : StateId) :
    (link src dst).run g =
      ⟨.error (.notVertex .link src), g, [.count "CFA.add_successor"]⟩ := by
  unfold link
  rw [run_bind_emit, run_bind_failed (run_need_of_absent (find?_of_not_hasState h))]

theorem run_link_of_absent_target {g : Graph} {src dst : StateId} (hs : g.hasState src = true)
    (hd : g.hasState dst = false) :
    (link src dst).run g =
      ⟨.error (.notVertex .link dst), g, [.count "CFA.add_successor"]⟩ := by
  obtain ⟨s, hs⟩ := find?_of_hasState hs
  unfold link
  rw [run_bind_emit, run_bind_quiet (run_need_of_find hs),
    run_bind_failed (run_need_of_absent (find?_of_not_hasState hd))]

/-- An edge between vertices is put into the lists at both ends. -/
theorem run_link_of_present {g : Graph} {src dst : StateId} {s d : Vertex}
    (hs : g.vertices.find? src = some s) (hd : g.vertices.find? dst = some d)
    (is : s.state.id = src) (id : d.state.id = dst) :
    (link src dst).run g =
      ⟨.ok (), g.withEdge src dst,
        [.count "CFA.add_successor",
          .log "cfa" ("add edge " ++ s.state.label ++ " -> " ++ d.state.label ++ "\n")]⟩ := by
  unfold link
  rw [run_bind_emit, run_bind_quiet (run_need_of_find hs), run_bind_quiet (run_need_of_find hd), log,
    run_bind_emit, is, id]
  rfl

/-- An edge with an end that is no vertex is not there, so there is nothing to remove. -/
theorem run_unlink_of_absent {g : Graph} {src dst : State}
    (h : g.hasState src.id = false ∨ g.hasState dst.id = false) :
    (unlink src dst).run g = ⟨.ok (), g, []⟩ := by
  have h : (g.vertices.contains src.id && g.vertices.contains dst.id) = false := by
    rw [Bool.and_eq_false_iff]; exact h
  unfold unlink
  rw [run_bind_quiet (run_get g)]
  simp only [h, Bool.false_eq_true, if_false]
  rfl

/-- An edge between vertices is taken out of the lists at both ends. -/
theorem run_unlink_of_present {g : Graph} {src dst : State} (hs : g.hasState src.id = true)
    (hd : g.hasState dst.id = true) :
    (unlink src dst).run g =
      ⟨.ok (), g.withoutEdge src.id dst.id,
        [.log "cfa" ("remove edge " ++ src.label ++ " -> " ++ dst.label ++ "\n")]⟩ := by
  have h : (g.vertices.contains src.id && g.vertices.contains dst.id) = true := by
    rw [Bool.and_eq_true]; exact ⟨hs, hd⟩
  unfold unlink
  rw [run_bind_quiet (run_get g)]
  simp only [h, if_true, log]
  rw [run_bind_emit]
  rfl

/-! ## Removal -/

theorem run_forgetSucc {g : Graph} {p : StateId} (id : StateId) (h : g.hasState p = true) :
    (forgetSucc id p).run g = ⟨.ok (), g.mapSuccs p (removeAdjacent · id), []⟩ := by
  obtain ⟨v, hv⟩ := find?_of_hasState h
  unfold forgetSucc
  rw [run_bind_quiet (run_need_of_find hv)]
  rfl

theorem run_forgetPred {g : Graph} {n : StateId} (id : StateId) (h : g.hasState n = true) :
    (forgetPred id n).run g = ⟨.ok (), g.mapPreds n (removeAdjacent · id), []⟩ := by
  obtain ⟨v, hv⟩ := find?_of_hasState h
  unfold forgetPred
  rw [run_bind_quiet (run_need_of_find hv)]
  rfl

/-- The loops of a removal find every neighbour, because forgetting an edge removes no vertex. -/
theorem run_forgetSuccs {g : Graph} (id : StateId) {ids : List StateId}
    (h : ∀ p ∈ ids, g.hasState p = true) :
    (ids.forM (forgetSucc id)).run g = ⟨.ok (), g.forgetSuccs id ids, []⟩ :=
  run_forM_quiet (P := fun t => ∀ k, t.hasState k = g.hasState k) ids g (fun _ => rfl)
    fun p hp t ht => ⟨run_forgetSucc id ((ht p).trans (h p hp)), fun k => by
      rw [hasState_mapSuccs, ht]⟩

theorem run_forgetPreds {g : Graph} (id : StateId) {ids : List StateId}
    (h : ∀ n ∈ ids, g.hasState n = true) :
    (ids.forM (forgetPred id)).run g = ⟨.ok (), g.forgetPreds id ids, []⟩ :=
  run_forM_quiet (P := fun t => ∀ k, t.hasState k = g.hasState k) ids g (fun _ => rfl)
    fun n hn t ht => ⟨run_forgetPred id ((ht n).trans (h n hn)), fun k => by
      rw [hasState_mapPreds, ht]⟩

/-- Removing what is no vertex does nothing. -/
theorem run_remove_of_absent {g : Graph} {s : State} (h : g.hasState s.id = false) :
    (remove s).run g = ⟨.ok (), g, []⟩ := by
  unfold remove
  rw [run_bind_quiet (run_get g), find?_of_not_hasState h]
  rfl

/-- A removal whose neighbours are vertices runs to its end. -/
theorem run_remove_of_present {g : Graph} {s : State} {v : Vertex}
    (h : g.vertices.find? s.id = some v) (hi : v.state.id = s.id)
    (hp : ∀ p ∈ v.preds, g.hasState p = true) (hn : ∀ n ∈ v.succs, g.hasState n = true) :
    (remove s).run g =
      ⟨.ok (), g.withoutVertex v,
        [.count "CFA.remove_state", .log "cfa" ("remove " ++ s.label ++ "\n")]⟩ := by
  unfold remove
  rw [run_bind_quiet (run_get g), h]
  simp only [log]
  rw [run_bind_emit, run_bind_emit,
    run_bind_quiet (run_forgetSuccs _ fun p hp' => hp p (List.mem_filter.1 hp').1),
    run_bind_quiet (run_forgetPreds _ fun n hn' => by
      rw [hasState_forgetSuccs]; exact hn n (List.mem_filter.1 hn').1),
    run_modify]
  simp only [← hi]
  rfl

/-! ## Changes in place -/

theorem run_change_of_absent {g : Graph} {id : StateId} (h : g.hasState id = false)
    (c : State.Change) : (change id c).run g = ⟨.error (.notVertex .node id), g, []⟩ := by
  unfold change
  exact run_bind_failed (run_need_of_absent (find?_of_not_hasState h))

/-- A setter changes the state of its vertex in place, and reports nothing. -/
theorem run_change_of_present {g : Graph} {id : StateId} (h : g.hasState id = true)
    (c : State.Change) : (change id c).run g = ⟨.ok (), g.mapState id (·.change c), []⟩ := by
  obtain ⟨v, hv⟩ := find?_of_hasState h
  unfold change
  rw [run_bind_quiet (run_need_of_find hv)]
  rfl

/-! ## Answers -/

/-- Adding a state always answers: with the vertex of its id, or with the new one. -/
theorem result_add (g : Graph) (s : State) :
    ((add s).run g).result = .ok ((g.vertices.find? s.id).getD { state := s }) := by
  cases hs : g.hasState s.id with
  | true =>
    obtain ⟨v, hv⟩ := find?_of_hasState hs
    rw [run_add_of_present hv, hv]
    rfl
  | false =>
    rw [run_add_of_absent hs, find?_of_not_hasState hs]
    rfl

theorem result_unlink (g : Graph) (src dst : State) :
    ((unlink src dst).run g).result = .ok () := by
  cases hs : g.hasState src.id with
  | false => rw [run_unlink_of_absent (.inl hs)]
  | true =>
    cases hd : g.hasState dst.id with
    | false => rw [run_unlink_of_absent (.inr hd)]
    | true => rw [run_unlink_of_present hs hd]

/-- Whether a copy is made depends on the next id alone. -/
theorem result_duplicate (g : Graph) (s : State) :
    ((duplicate s).run g).result =
      if g.hasState g.counter.next then .error (.alreadyVertex g.counter.next)
      else .ok { state := g.copyOf s } := by
  cases hn : g.hasState g.counter.next with
  | true =>
    rw [run_duplicate_of_present hn]
    rfl
  | false =>
    rw [run_duplicate_of_absent hn]
    rfl

/-! ## Questions -/

theorem run_pred_of_absent {g : Graph} {s : State} (h : g.hasState s.id = false) :
    (pred s).run g = ⟨.error (.notVertex .pred s.id), g, []⟩ := by
  unfold pred
  exact run_bind_failed (run_need_of_absent (find?_of_not_hasState h))

theorem run_pred_of_none {g : Graph} {s : State} (h : g.hasState s.id = true)
    (hp : g.predIds s.id = []) :
    (pred s).run g =
      ⟨.ok (.error .noPredecessor), g, [.log "cfa" ("no predecessor for " ++ s.label ++ "\n")]⟩ := by
  obtain ⟨v, hv⟩ := find?_of_hasState h
  rw [predIds_of_find hv] at hp
  unfold pred
  rw [run_bind_quiet (run_need_of_find hv)]
  simp only [hp, log]
  rw [run_bind_emit]
  rfl

/-- The predecessor is the state of the one vertex that leads to the vertex; none, or more than one,
is an answer too and not a failure. -/
theorem run_pred_of_one {g : Graph} {s t : State} {p : StateId} (hp : g.predIds s.id = [p])
    (ht : g.state? p = some t) : (pred s).run g = ⟨.ok (.ok t), g, []⟩ := by
  obtain ⟨v, hv⟩ := find?_of_hasState (hasState_of_mem_predIds (hp ▸ List.mem_singleton_self p))
  rw [predIds_of_find hv] at hp
  unfold pred
  rw [run_bind_quiet (run_need_of_find hv)]
  simp only [hp]
  rw [run_bind_quiet (run_need_of_find (find?_of_state ht))]
  rfl

theorem run_pred_of_many {g : Graph} {s : State} (hp : 2 ≤ (g.predIds s.id).length) :
    (pred s).run g =
      ⟨.ok (.error .multiplePredecessors), g,
        [.log "cfa" (toString (g.predIds s.id).length ++ " predecessors for " ++ s.label ++ "\n")]⟩ := by
  obtain ⟨p, hm⟩ := List.exists_mem_of_length_pos (Nat.lt_of_lt_of_le Nat.two_pos hp)
  obtain ⟨v, hv⟩ := find?_of_hasState (hasState_of_mem_predIds hm)
  rw [predIds_of_find hv] at hp ⊢
  unfold pred
  rw [run_bind_quiet (run_need_of_find hv)]
  match hl : v.preds with
  | [] => rw [hl] at hp; simp at hp
  | [q] => rw [hl] at hp; simp at hp
  | q :: r :: l =>
    simp only [log]
    rw [run_bind_emit]
    rfl

/-- The latest state at an address is an answer as well where there is none. -/
theorem run_latest (g : Graph) (ip : Address) :
    (latest ip).run g =
      match g.latestAt ip with
      | some s => ⟨.ok (.ok s), g, []⟩
      | none => ⟨.ok (.error .notFound), g, [.log "cfa" ("no state at " ++ ip.text ++ "\n")]⟩ := by
  unfold latest
  rw [run_bind_quiet (run_get g)]
  cases g.latestAt ip with
  | some s => rfl
  | none => rfl

theorem readOnly_need (use : VertexUse) (id : StateId) : ReadOnly (need use id) :=
  ReadOnly.get.bind fun _ => ReadOnly.ofExcept _

/-- Questions change nothing, however they end. -/
theorem readOnly_pred (s : State) : ReadOnly (pred s) := by
  refine (readOnly_need .pred s.id).bind fun v => ?_
  split
  · exact (ReadOnly.emit _).bind fun _ => ReadOnly.pure _
  · exact (readOnly_need .pred _).bind fun _ => ReadOnly.pure _
  · exact (ReadOnly.emit _).bind fun _ => ReadOnly.pure _

theorem readOnly_latest (ip : Address) : ReadOnly (latest ip) := by
  refine ReadOnly.get.bind fun g => ?_
  split
  · exact ReadOnly.pure _
  · exact (ReadOnly.emit _).bind fun _ => ReadOnly.pure _

end FlowAutomaton.Graph
