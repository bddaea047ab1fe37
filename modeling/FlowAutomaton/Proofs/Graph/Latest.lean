/-
The latest state at a place. Whatever calls made an automaton and in whichever order its vertices are
stored, it answers with the state of the greatest id among those that stand at the place of the
address, or that none does; the size of an address plays no part. Where the states stand is said by
the plain graph of the automaton, in which a state that was moved stands at its new address alone and
one that was removed stands nowhere.
-/
import FlowAutomaton.Proofs.Graph.Invariant
import FlowAutomaton.Proofs.Graph.Listing
import FlowAutomaton.Proofs.Place

namespace FlowAutomaton

/-- A vertex of a plain graph, with its state, stands at the place of an address. -/
def Digraph.StandsAt (d : Digraph) (a : Address) (id : StateId) (s : State) : Prop :=
  d.states id = some s ∧ s.ip.SamePlace a

namespace Graph

variable {g k : Graph}

/-! ## Vertices in another order -/

/-- Vertices that are stored in another order are found alike. -/
theorem find?_of_perm {vs ws : Vertices} (h : vs.entries.Perm ws.entries) (id : StateId) :
    vs.find? id = ws.find? id :=
  Option.ext fun v => by
    rw [Vertices.find?_eq_some_iff, Vertices.find?_eq_some_iff, h.mem_iff]

theorem WF.of_perm (h : g.WF) (hk : k.vertices.entries.Perm g.vertices.entries) : k.WF := by
  have hfind := find?_of_perm hk
  have hstate : ∀ id, k.state? id = g.state? id := fun id => by rw [state?, state?, hfind]
  refine h.of_same_lists (fun id s hs => h.id_eq id s (hstate id ▸ hs)) (fun id => ?_)
    (fun id => ?_) fun id => ?_
  · rw [hasState, hasState, Vertices.contains, Vertices.contains, hfind]
  · rw [succIds, succIds, hfind]
  · rw [predIds, predIds, hfind]

/-! ## The latest of the states at a place -/

theorem result_latest (g : Graph) (a : Address) :
    ((latest a).run g).result = .ok (match g.latestAt a with
      | some s => .ok s
      | none => .error .notFound) := by
  rw [run_latest]
  cases g.latestAt a <;> rfl

theorem result_latest_eq_notFound_iff (a : Address) :
    ((latest a).run g).result = .ok (.error .notFound) ↔ g.latestAt a = none := by
  rw [result_latest]
  cases g.latestAt a <;> simp

theorem result_latest_eq_ok_iff (a : Address) (s : State) :
    ((latest a).run g).result = .ok (.ok s) ↔ g.latestAt a = some s := by
  rw [result_latest]
  cases g.latestAt a <;> simp

/-- Where the states of an automaton stand is said by a plain graph with the same states. -/
theorem standsAt_iff_exists {d : Digraph} (hd : ∀ id, k.state? id = d.states id) (a : Address)
    (s : State) : k.StandsAt a s ↔ ∃ id, d.StandsAt a id s := by
  simp only [StandsAt, Digraph.StandsAt, hd, Address.same_iff, exists_and_right]

/-- After any calls, and in whichever order the vertices are stored, the latest state at an address
is that of the greatest id among the states of the plain graph that stand at its place. There is none
exactly if no state stands there. -/
theorem latest_after_calls (h : g.WF) (cs : List Call)
    (hk : k.vertices.entries.Perm (g.afterCalls cs).vertices.entries) (a : Address) :
    let d := cs.foldl Digraph.afterCall g.view
    (((latest a).run k).result = .ok (.error .notFound) ↔ ∀ id s, ¬d.StandsAt a id s) ∧
      (∀ s, ((latest a).run k).result = .ok (.ok s) ↔
        d.StandsAt a s.id s ∧ ∀ id t, d.StandsAt a id t → id ≤ s.id) ∧
      ((∃ id s, d.StandsAt a id s) → ∃ s, ((latest a).run k).result = .ok (.ok s)) ∧
      ((latest a).run k).state = k := by
  intro d
  have hrep : Represents (g.afterCalls cs) d := h.represents.afterCalls cs
  have hwf : k.WF := hrep.wf.of_perm hk
  have hstates : ∀ id, k.state? id = d.states id := fun id => by
    rw [← hrep.states, state?, state?, find?_of_perm hk]
  -- a state has the id under which it is stored
  have hid : ∀ {id s}, d.StandsAt a id s → s.id = id := fun hs => hrep.id_eq _ _ hs.1
  have hstands := standsAt_iff_exists hstates a
  have hnone : k.latestAt a = none ↔ ∀ id s, ¬d.StandsAt a id s := by
    rw [latestAt_eq_none_iff]
    simp only [hstands, not_exists]
    exact forall_comm
  refine ⟨(result_latest_eq_notFound_iff a).trans hnone, fun s => ?_, ?_, readOnly_latest a k⟩
  · rw [result_latest_eq_ok_iff, latestAt_eq_some_iff hwf]
    simp only [hstands]
    constructor
    · rintro ⟨⟨id, hs⟩, hle⟩
      exact ⟨(hid hs).symm ▸ hs, fun id' t ht => hid ht ▸ hle t ⟨id', ht⟩⟩
    · rintro ⟨hs, hle⟩
      refine ⟨⟨_, hs⟩, ?_⟩
      rintro t ⟨id', ht⟩
      exact (hid ht).symm ▸ hle id' t ht
  · rintro ⟨id, s, hs⟩
    cases hl : k.latestAt a with
    | none => exact absurd hs (hnone.1 hl id s)
    | some t => exact ⟨t, (result_latest_eq_ok_iff a t).2 hl⟩

/-- Three states with ids out of order: one is moved to the place of another, with an address of
another size, and one that stands there too is removed. -/
def relocations : List Call :=
  [.update (.add { id := 7, ip := ⟨.global, 16, 32⟩ }),
    .update (.add { id := 3, ip := ⟨.stack, 16, 32⟩ }),
    .update (.add { id := 9, ip := ⟨.global, 16, 64⟩ }),
    .update (.change 3 (.ip ⟨.global, 16, 8⟩)), .update (.remove { id := 9 })]

/-- What they leave, stored in another order. -/
def relocated : Graph :=
  afterAll {} [.add { id := 3, ip := ⟨.global, 16, 8⟩ }, .add { id := 7, ip := ⟨.global, 16, 32⟩ }]

theorem latest_after_relocations :
    WF {} ∧ relocated.vertices.entries.Perm (afterCalls {} relocations).vertices.entries ∧
      ∃ s, ((latest ⟨.global, 16, 0⟩).run relocated).result = .ok (.ok s) ∧ s.id = 7 ∧
        (∀ id t, (relocations.foldl Digraph.afterCall (view {})).StandsAt ⟨.global, 16, 0⟩ id t →
          id ≤ 7) ∧
        ∀ id t, ¬(relocations.foldl Digraph.afterCall (view {})).StandsAt ⟨.stack, 16, 32⟩ id t := by
  have hperm : relocated.vertices.entries.Perm (afterCalls {} relocations).vertices.entries :=
    .swap _ _ _
  have hglobal := latest_after_calls WF.empty relocations hperm ⟨.global, 16, 0⟩
  have hstack := latest_after_calls WF.empty relocations hperm ⟨.stack, 16, 32⟩
  have hfound : ((latest ⟨.global, 16, 0⟩).run relocated).result =
      .ok (.ok { id := 7, ip := ⟨.global, 16, 32⟩ }) := rfl
  exact ⟨WF.empty, hperm, _, hfound, rfl, ((hglobal.2.1 _).1 hfound).2, hstack.1.1 rfl⟩

end Graph

end FlowAutomaton
