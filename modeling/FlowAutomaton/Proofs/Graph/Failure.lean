/-
Which calls on an automaton fail, and what they leave. A call fails exactly if it is refused: a
start of an automaton with vertices or from a configuration without an initial value, a use of an
id that is not that of a vertex, and a copy whose id is that of a vertex already. Nothing else
fails: the look-ups of neighbours inside an operation find a vertex, because an automaton that
calls have made is well-formed. A call that failed has changed nothing, with the exception of a
copy, which has used up its id.
-/
import FlowAutomaton.Proofs.Graph.Neighbours

namespace FlowAutomaton

/-! ## Statements that have no text -/

/-- The kind of a statement is a number that names none. -/
def Statement.IsUnnamed (s : Statement) : Prop := ∃ code unnamed, s.kind = .unknown code unnamed

/-- A statement has no text exactly if its kind is unnamed. -/
theorem Statement.text_eq_error_iff (s : Statement) : (∃ e, s.text = .error e) ↔ s.IsUnnamed := by
  obtain ⟨kind, first, second⟩ := s
  cases kind with
  | unknown code unnamed => exact iff_of_true ⟨_, rfl⟩ ⟨code, unnamed, rfl⟩
  | _ => simp [text, IsUnnamed]

namespace Graph

open FlowAutomaton.Action

variable {g : Graph}

/-! ## What is refused -/

/-- The calls that an automaton refuses. -/
def Refuses (g : Graph) : Call → Prop
  | .update (.start _ c) => g.size ≠ 0 ∨ ∃ e, InitialValue.value c = .error e
  | .update (.add _) => False
  | .update (.remove _) => False
  | .update (.link src dst) => g.hasState src = false ∨ g.hasState dst = false
  | .update (.unlink _ _) => False
  | .update (.duplicate _) => g.hasState g.counter.next = true
  | .update (.change id _) => g.hasState id = false
  | .update .issue => False
  | .update (.observe _) => False
  | .update (.reset _) => False
  | .query .size => False
  | .query .numEdges => False
  | .query .lastId => False
  | .query (.hasState _) => False
  | .query (.hasEdge _ _) => False
  | .query (.node id) => g.hasState id = false
  | .query .ids => False
  | .query .edges => False
  | .query .sinks => False
  | .query (.succs id) => g.hasState id = false
  | .query (.preds id) => g.hasState id = false
  | .query (.pred s) => g.hasState s.id = false
  | .query (.latest _) => False
  | .query (.dump loglevel) =>
    2 < loglevel ∧ ∃ id s, g.state? id = some s ∧ ∃ st ∈ s.statements, st.IsUnnamed

/-- What a call leaves that fails. -/
def afterFailure (g : Graph) : Call → Graph
  | .update (.duplicate _) => g.withCounter g.counter.advance
  | _ => g

/-! ## Updates -/

theorem run_start_of_refused (ip : Address) {c : Configuration}
    (h : g.size ≠ 0 ∨ ∃ e, InitialValue.value c = .error e) :
    ∃ e es, (start ip c).run g = ⟨.error e, g, es⟩ := by
  by_cases hz : g.size = 0
  · rcases h with hn | ⟨e, hv⟩
    · exact absurd hz hn
    · exact ⟨_, _, run_start_of_fault hz ip hv⟩
  · exact ⟨_, _, run_start_of_nonempty hz ip c⟩

/-- A start fails exactly if it is refused. -/
theorem fails_start_iff (ip : Address) (c : Configuration) :
    (start ip c).Fails g ↔ g.size ≠ 0 ∨ ∃ e, InitialValue.value c = .error e := by
  constructor
  · intro hf
    by_cases hz : g.size = 0
    · cases hv : InitialValue.value c with
      | ok value =>
        have hrun := run_start_of_value hz ip hv
        exact absurd hf (not_fails_of_result (congrArg Outcome.result hrun))
      | error e => exact .inr ⟨e, rfl⟩
    · exact .inl hz
  · intro hr
    obtain ⟨e, es, hrun⟩ := run_start_of_refused ip hr
    exact fails_of_run hrun

theorem run_link_of_refused {src dst : StateId}
    (h : g.hasState src = false ∨ g.hasState dst = false) :
    ∃ e es, (link src dst).run g = ⟨.error e, g, es⟩ := by
  cases hs : g.hasState src with
  | false => exact ⟨_, _, run_link_of_absent_source hs dst⟩
  | true =>
    rcases h with hn | hd
    · cases hs.symm.trans hn
    · exact ⟨_, _, run_link_of_absent_target hs hd⟩

/-- An edge fails exactly if one of its ends is no vertex. -/
theorem fails_link_iff (h : g.WF) (src dst : StateId) :
    (link src dst).Fails g ↔ g.hasState src = false ∨ g.hasState dst = false := by
  constructor
  · intro hf
    cases hs : g.hasState src with
    | false => exact .inl rfl
    | true =>
      cases hd : g.hasState dst with
      | false => exact .inr rfl
      | true => exact absurd hf (not_fails_of_result (h.result_link hs hd))
  · intro hr
    obtain ⟨e, es, hrun⟩ := run_link_of_refused hr
    exact fails_of_run hrun

/-- A copy fails exactly if the next id is that of a vertex. -/
theorem fails_duplicate_iff (s : State) :
    (duplicate s).Fails g ↔ g.hasState g.counter.next = true := by
  cases hn : g.hasState g.counter.next with
  | true => exact iff_of_true (fails_of_run (run_duplicate_of_present hn s)) rfl
  | false =>
    refine iff_of_false ?_ (by simp)
    exact not_fails_of_result (congrArg Outcome.result (run_duplicate_of_absent hn s))

theorem fails_change_iff (id : StateId) (c : State.Change) :
    (change id c).Fails g ↔ g.hasState id = false := by
  cases hi : g.hasState id with
  | true =>
    refine iff_of_false ?_ (by simp)
    exact not_fails_of_result (congrArg Outcome.result (run_change_of_present hi c))
  | false => exact iff_of_true (fails_of_run (run_change_of_absent hi c)) rfl

/-! ## Questions -/

/-- What has an answer for a vertex and none for another id fails exactly for another id. -/
theorem eq_error_iff_absent {α : Type} {r : Except Fault α} {id : StateId}
    (hv : ∀ v, g.vertices.find? id = some v → ∃ a, r = .ok a)
    (ha : g.vertices.find? id = none → ∃ e, r = .error e) :
    (∃ e, r = .error e) ↔ g.hasState id = false := by
  cases hi : g.hasState id with
  | true =>
    obtain ⟨v, hf⟩ := find?_of_hasState hi
    obtain ⟨a, hr⟩ := hv v hf
    simp [hr]
  | false => exact iff_of_true (ha (find?_of_not_hasState hi)) rfl

theorem node_eq_error_iff (id : StateId) : (∃ e, g.node id = .error e) ↔ g.hasState id = false :=
  eq_error_iff_absent (fun v hv => ⟨v, lookup_of_find hv⟩) fun ha => ⟨_, lookup_of_absent ha⟩

/-- Neighbours are refused for the id that is asked for only, as in a well-formed automaton every
neighbour is found. -/
theorem succs_eq_error_iff (h : g.WF) (id : StateId) :
    (∃ e, g.succs id = .error e) ↔ g.hasState id = false :=
  eq_error_iff_absent (fun _ hv => ⟨_, succs_of_find h hv⟩) fun ha => ⟨_, succs_of_absent ha⟩

theorem preds_eq_error_iff (h : g.WF) (id : StateId) :
    (∃ e, g.preds id = .error e) ↔ g.hasState id = false :=
  eq_error_iff_absent (fun _ hv => ⟨_, preds_of_find h hv⟩) fun ha => ⟨_, preds_of_absent ha⟩

theorem neighbours_eq_error_iff (r : Except Fault (List State)) :
    (∃ e, r.map (Answer.neighbours ·) = .error e) ↔ ∃ e, r = .error e := by
  cases r with
  | ok l => simp [Except.map, bind, Except.bind, pure, Except.pure]
  | error e => simp [Except.map, bind, Except.bind]

theorem fails_pred_iff (h : g.WF) (s : State) : (pred s).Fails g ↔ g.hasState s.id = false := by
  cases hi : g.hasState s.id with
  | true =>
    obtain ⟨r, hr, -⟩ := exists_predIs h hi
    exact iff_of_false (not_fails_of_result hr) (by simp)
  | false => exact iff_of_true (fails_of_run (run_pred_of_absent hi)) rfl

theorem not_fails_latest (ip : Address) : ¬(latest ip).Fails g := by
  rintro ⟨e, he⟩
  rw [run_latest] at he
  split at he
  · cases he
  · cases he

/-! ## The text of an automaton -/

/-- What is written between the statements never fails. -/
theorem fails_put_iff (t s : String) : (put t).Fails s ↔ False :=
  iff_false_intro (not_fails_of_result (a := ()) rfl)

theorem fails_writeStatement_iff (t : Statement) (s : String) :
    (writeStatement t).Fails s ↔ t.IsUnnamed := by
  rw [← Statement.text_eq_error_iff, writeStatement]
  cases t.text with
  | ok text => exact iff_of_false (not_fails_of_result (a := ()) rfl) (by simp)
  | error e => exact iff_of_true ⟨e, rfl⟩ ⟨e, rfl⟩

theorem fails_writeStatements_iff (loglevel : UInt32) (s : State) (t : String) :
    (writeStatements loglevel s).Fails t ↔ 2 < loglevel ∧ ∃ st ∈ s.statements, st.IsUnnamed := by
  by_cases hl : 2 < loglevel
  · have hall := fails_forM fun st (_ : st ∈ s.statements) => fails_writeStatement_iff st
    have hends := fails_seq hall (fails_put_iff "\n")
    rw [writeStatements, if_pos hl, fails_seq (fails_put_iff _) hends, false_or, or_false,
      and_iff_right hl]
  · rw [writeStatements, if_neg hl]
    exact iff_of_false (not_fails_of_result (a := ()) rfl) fun h => hl h.1

/-- What was written before a statement without a text stays. -/
example : ((writeStatements 3 { statements := [.ret, ⟨.unknown 7 (by decide), "", ""⟩] }).run
    "").state = "statements = ret; " := by decide

theorem fails_writeVertex_iff (loglevel : UInt32) (id : StateId) (s : State) (t : String) :
    (writeVertex loglevel id s).Fails t ↔ 2 < loglevel ∧ ∃ st ∈ s.statements, st.IsUnnamed := by
  have hends := fails_seq (fails_writeStatements_iff loglevel s) (fails_put_iff "\n")
  rw [writeVertex, fails_seq (fails_put_iff _) hends, false_or, or_false]

/-- The text of an automaton ends early exactly if a statement that is shown has no text. -/
theorem fails_write_iff (loglevel : UInt32) (t : String) :
    (g.write loglevel).Fails t ↔
      2 < loglevel ∧ ∃ id s, g.state? id = some s ∧ ∃ st ∈ s.statements, st.IsUnnamed := by
  have hvertex : ∀ id ∈ g.ids, ∀ t,
      (do writeVertex loglevel id (← ofExcept (g.node id)).state : Action String Unit).Fails t ↔
        2 < loglevel ∧ ∃ s, g.state? id = some s ∧ ∃ st ∈ s.statements, st.IsUnnamed := by
    intro id hid t
    obtain ⟨s, hs⟩ := hasState_iff.1 (g.mem_ids.1 hid)
    rw [node, lookup_of_find (find?_of_state hs), hs]
    simp only [Option.some.injEq, exists_eq_left']
    exact fails_writeVertex_iff loglevel id s t
  rw [write, fails_seq (fails_forM hvertex) (fails_put_iff _), or_false]
  constructor
  · rintro ⟨id, -, hl, s, hs⟩
    exact ⟨hl, id, s, hs⟩
  · rintro ⟨hl, id, s, hs, hst⟩
    exact ⟨id, g.mem_ids.2 (hasState_iff.2 ⟨s, hs⟩), hl, s, hs, hst⟩

theorem dump_eq_error_iff (loglevel : UInt32) :
    (∃ e, g.dump loglevel = .error e) ↔
      2 < loglevel ∧ ∃ id s, g.state? id = some s ∧ ∃ st ∈ s.statements, st.IsUnnamed :=
  (map_eq_error_iff _ _).trans (fails_write_iff loglevel "")

/-! ## Every call -/

/-- An update fails exactly if it is refused. -/
theorem fails_update_iff (h : g.WF) (u : Update) : u.action.Fails g ↔ g.Refuses (.update u) := by
  cases u with
  | start ip c => exact (fails_map _ _ g).trans (fails_start_iff ip c)
  | add s =>
    refine (fails_map _ _ g).trans (iff_of_false ?_ not_false)
    exact not_fails_of_result (result_add g s)
  | remove s =>
    refine (fails_map _ _ g).trans (iff_of_false ?_ not_false)
    exact not_fails_of_result (h.result_remove s)
  | link src dst => exact (fails_map _ _ g).trans (fails_link_iff h src dst)
  | unlink src dst =>
    refine (fails_map _ _ g).trans (iff_of_false ?_ not_false)
    exact not_fails_of_result (result_unlink g src dst)
  | duplicate s => exact (fails_map _ _ g).trans (fails_duplicate_iff s)
  | change id c => exact (fails_map _ _ g).trans (fails_change_iff id c)
  | issue => exact iff_of_false (not_fails_of_result rfl) not_false
  | observe id => exact iff_of_false (not_fails_of_result rfl) not_false
  | reset last => exact iff_of_false (not_fails_of_result rfl) not_false

/-- A question fails exactly if it is refused. -/
theorem fails_query_iff (h : g.WF) (q : Query) : q.action.Fails g ↔ g.Refuses (.query q) := by
  cases q with
  | size => exact iff_of_false (not_fails_of_result rfl) not_false
  | numEdges => exact iff_of_false (not_fails_of_result rfl) not_false
  | lastId => exact iff_of_false (not_fails_of_result rfl) not_false
  | hasState id => exact iff_of_false (not_fails_of_result rfl) not_false
  | hasEdge src dst => exact iff_of_false (not_fails_of_result rfl) not_false
  | node id =>
    exact (fails_get_ofExcept _ g).trans ((map_eq_error_iff _ _).trans (node_eq_error_iff id))
  | ids => exact iff_of_false (not_fails_of_result rfl) not_false
  | edges => exact iff_of_false (not_fails_of_result rfl) not_false
  | sinks => exact iff_of_false (not_fails_of_result rfl) not_false
  | succs id =>
    exact (fails_get_ofExcept _ g).trans ((neighbours_eq_error_iff _).trans (succs_eq_error_iff h id))
  | preds id =>
    exact (fails_get_ofExcept _ g).trans ((neighbours_eq_error_iff _).trans (preds_eq_error_iff h id))
  | pred s => exact (fails_map _ _ g).trans (fails_pred_iff h s)
  | latest ip => exact (fails_map _ _ g).trans (iff_of_false (not_fails_latest ip) not_false)
  | dump loglevel =>
    exact (fails_get_ofExcept _ g).trans ((map_eq_error_iff _ _).trans (dump_eq_error_iff loglevel))

theorem fails_iff_refuses (h : g.WF) (c : Call) : c.action.Fails g ↔ g.Refuses c := by
  cases c with
  | update u => exact fails_update_iff h u
  | query q => exact fails_query_iff h q

/-- An update that is refused stops before it has changed anything, with the exception of a copy. -/
theorem state_of_refused {u : Update} (hr : g.Refuses (.update u)) :
    (u.action.run g).state = g.afterFailure (.update u) := by
  cases u with
  | start ip c =>
    obtain ⟨e, es, hrun⟩ := run_start_of_refused ip hr
    rw [Update.action, run_map, hrun]
    rfl
  | link src dst =>
    obtain ⟨e, es, hrun⟩ := run_link_of_refused hr
    rw [Update.action, run_map, hrun]
    rfl
  | duplicate s =>
    rw [Update.action, run_map, run_duplicate_of_present hr]
    rfl
  | change id c =>
    rw [Update.action, run_map, run_change_of_absent hr]
    rfl
  | add s => exact hr.elim
  | remove s => exact hr.elim
  | unlink src dst => exact hr.elim
  | issue => exact hr.elim
  | observe id => exact hr.elim
  | reset last => exact hr.elim

/-- What a call leaves that has failed. -/
theorem state_of_fails (h : g.WF) {c : Call} (hf : c.action.Fails g) :
    (c.action.run g).state = g.afterFailure c := by
  cases c with
  | update u => exact state_of_refused ((fails_iff_refuses h _).1 hf)
  | query q => exact readOnly_query q g

/-- After any calls on the empty automaton, a call fails exactly if it is refused, and then it has
changed nothing but the counter, and that only if it was to make a copy. A removal never fails, so
it goes to its end: what it leaves is the plain graph without the vertex and the edges at it. -/
theorem failures_of_calls (cs : List Call) :
    let g := afterCalls {} cs
    (∀ c : Call, c.action.Fails g ↔ g.Refuses c) ∧
    (∀ c : Call, c.action.Fails g → (c.action.run g).state = g.afterFailure c) ∧
    ∀ s, ((remove s).run g).state.view = g.view.remove s.id := by
  have h : (afterCalls {} cs).WF := WF.empty.afterCalls cs
  exact ⟨fails_iff_refuses h, fun c => state_of_fails h, fun s => (h.represents.remove s).view_eq⟩

/-- Two vertices with an edge between them, of which the second one is in the way of a copy. -/
def blocking : List Call :=
  [.update (.add { id := 3 }), .update (.add { id := 5 }), .update (.link 3 5), .update (.reset 4)]

theorem failures_of_calls_blocking :
    let g := afterCalls {} blocking
    (Call.update (.duplicate { id := 3 })).action.Fails g ∧
      ((Call.update (.duplicate { id := 3 })).action.run g).state = g.withCounter ⟨5⟩ ∧
      (Call.update (.link 3 9)).action.Fails g ∧
      ((Call.update (.link 3 9)).action.run g).state = g ∧
      ¬(Call.query (.succs 3)).action.Fails g ∧ ¬(Call.update (.remove { id := 5 })).action.Fails g := by
  obtain ⟨hfails, hstate, -⟩ := failures_of_calls blocking
  have hd : (Call.update (.duplicate { id := 3 })).action.Fails (afterCalls {} blocking) :=
    (hfails _).2 (show (afterCalls {} blocking).hasState 5 = true by decide)
  have hl : (Call.update (.link 3 9)).action.Fails (afterCalls {} blocking) :=
    (hfails _).2 (.inr (by decide))
  have hs : (afterCalls {} blocking).hasState 3 = true := by decide
  refine ⟨hd, hstate _ hd, hl, hstate _ hl, fun hf => ?_, fun hf => ?_⟩
  · cases hs.symm.trans ((hfails _).1 hf)
  · exact (hfails _).1 hf

end Graph

end FlowAutomaton
