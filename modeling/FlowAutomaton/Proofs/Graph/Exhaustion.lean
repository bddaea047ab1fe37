/-
Copies are above all states that were added, until the ids run out. A run may start an analysis,
add states of any ids, load files of any contents, and remove, link and copy states, in any order.
As long as no copy is made after the greatest id, every copy is made, and its id is greater than
those of all states that were added since the numbering began. A copy after the greatest id gets
the first id again: it is below them, and fails where the first id is that of a vertex.
-/
import FlowAutomaton.Proofs.Graph.Failure
import FlowAutomaton.Proofs.Graph.Numbering

namespace FlowAutomaton

/-! ## Counters at their end -/

namespace Counter

/-- The last id is the greatest there is. -/
def Exhausted (c : Counter) : Prop := c.last.toNat = 2 ^ 64 - 1

instance (c : Counter) : Decidable c.Exhausted := Nat.decEq c.last.toNat (2 ^ 64 - 1)

theorem lt_of_not_exhausted {c : Counter} (h : ¬c.Exhausted) : c.last.toNat < 2 ^ 64 - 1 := by
  have hlt : c.last.toNat < 2 ^ 64 := c.last.toNat_lt
  unfold Exhausted at h
  omega

theorem Exhausted.next_eq {c : Counter} (h : c.Exhausted) : c.next = rootId := by
  unfold Exhausted at h
  have hnext : c.next.toNat = rootId.toNat := by
    rw [next, UInt64.toNat_add, h]
    rfl
  exact UInt64.toNat_inj.1 hnext

end Counter

namespace Graph

open FlowAutomaton.Action

/-! ## Moves -/

/-- A move of an analysis: an update of its automaton, or the automaton of a file in its place,
whatever files there are. -/
inductive Move (σ : Type) where
  | update (u : Update)
  | load (path : String) (files : σ)

variable {σ : Type} [FileSystem σ]

/-- The automaton after a move; it stays where no automaton can be loaded. -/
def moved (g : Graph) : Move σ → Graph
  | .update u => g.after u
  | .load path files =>
    match ((Checkpoint.load path).run files).result with
    | .ok k => k
    | .error _ => g

/-- The automaton after some moves, one after the other. -/
def movedAll (g : Graph) (ms : List (Move σ)) : Graph := ms.foldl moved g

namespace Move

/-- A move that leaves the counter to the automaton. -/
def LeavesCounter : Move σ → Prop
  | update u => (∃ ip c, u = .start ip c) ∨ u.IsPlain
  | load _ _ => True

/-- A move that begins the numbering anew: a start that is made, or a file that is loaded. -/
def Renumbers (g : Graph) : Move σ → Prop
  | update (.start ip c) => ¬(Graph.start ip c).Fails g
  | load path files => ∃ k, ((Checkpoint.load path).run files).result = .ok k
  | _ => False

/-- A move that makes no copy after the greatest id. -/
def HasId (g : Graph) (m : Move σ) : Prop :=
  ∀ s, m = .update (.duplicate s) → ¬g.counter.Exhausted

end Move

/-- The numbering begins anew during some moves. -/
def Renumbered (g : Graph) : List (Move σ) → Prop
  | [] => False
  | m :: ms => m.Renumbers g ∨ (g.moved m).Renumbered ms

/-- None of some moves makes a copy after the greatest id. -/
def HasIds (g : Graph) : List (Move σ) → Prop
  | [] => True
  | m :: ms => m.HasId g ∧ (g.moved m).HasIds ms

variable {g : Graph}

theorem movedAll_append (g : Graph) (ms ns : List (Move σ)) :
    g.movedAll (ms ++ ns) = (g.movedAll ms).movedAll ns :=
  List.foldl_append

theorem hasIds_append {ms ns : List (Move σ)} :
    g.HasIds (ms ++ ns) ↔ g.HasIds ms ∧ (g.movedAll ms).HasIds ns := by
  induction ms generalizing g with
  | nil => exact (true_and (g.HasIds ns)).symm.to_iff
  | cons m ms ih =>
    change m.HasId g ∧ (g.moved m).HasIds (ms ++ ns) ↔ _
    rw [ih, ← and_assoc]
    rfl

/-! ## High-water marks along moves -/

/-- A move that leaves the counter to the automaton keeps it not below any vertex, and lowers it
only where the numbering begins anew. -/
theorem WF.bounded_moved (h : g.WF) (hb : g.Bounded) {m : Move σ} (hm : m.LeavesCounter)
    (hid : m.HasId g) :
    (g.moved m).WF ∧ (g.moved m).Bounded ∧
      (¬m.Renumbers g → g.counter.last ≤ (g.moved m).counter.last) := by
  cases m with
  | update u =>
    refine ⟨h.after u, ?_⟩
    rcases hm with ⟨ip, c, rfl⟩ | hu
    · refine ⟨(h.bounded_start hb ip c).1, fun hn => ?_⟩
      -- a start that is refused changes nothing
      have hf : (start ip c).Fails g := Classical.not_not.1 hn
      have hg : g.after (.start ip c) = g := state_of_refused ((fails_start_iff ip c).1 hf)
      rw [moved, hg]
      exact UInt64.le_refl g.counter.last
    · obtain ⟨hle, hb'⟩ :=
        h.bounded_after hb hu fun s hs => Counter.lt_of_not_exhausted (hid s (congrArg _ hs))
      exact ⟨hb', fun _ => hle⟩
  | load path files =>
    rw [moved]
    cases hl : ((Checkpoint.load path).run files).result with
    | ok k =>
      obtain ⟨hk, hbk⟩ := bounded_of_empty_or_loaded (.inr ⟨σ, _, path, files, hl⟩)
      exact ⟨hk, hbk, fun hn => absurd ⟨k, hl⟩ hn⟩
    | error e => exact ⟨h, hb, fun _ => UInt64.le_refl g.counter.last⟩

theorem WF.bounded_movedAll (h : g.WF) (hb : g.Bounded) {ms : List (Move σ)}
    (hms : ∀ m ∈ ms, m.LeavesCounter) (hids : g.HasIds ms) :
    (g.movedAll ms).WF ∧ (g.movedAll ms).Bounded ∧
      (¬g.Renumbered ms → g.counter.last ≤ (g.movedAll ms).counter.last) := by
  induction ms generalizing g with
  | nil => exact ⟨h, hb, fun _ => UInt64.le_refl g.counter.last⟩
  | cons m ms ih =>
    obtain ⟨hm, hms⟩ := List.forall_mem_cons.1 hms
    obtain ⟨hid, hids⟩ := hids
    obtain ⟨h₁, hb₁, hle₁⟩ := h.bounded_moved hb hm hid
    obtain ⟨h₂, hb₂, hle₂⟩ := ih h₁ hb₁ hms hids
    refine ⟨h₂, hb₂, fun hn => ?_⟩
    obtain ⟨hn₁, hn₂⟩ := not_or.1 hn
    exact UInt64.le_trans (hle₁ hn₁) (hle₂ hn₂)

/-- A state that was added is not above the counter. -/
theorem le_counter_add (hb : g.Bounded) (t : State) :
    t.id ≤ (g.after (.add t)).counter.last := by
  rw [after, Update.action, run_map]
  cases ht : g.hasState t.id with
  | true =>
    obtain ⟨v, hv⟩ := find?_of_hasState ht
    rw [run_add_of_present hv]
    exact hb t.id ht
  | false =>
    rw [run_add_of_absent ht]
    exact g.counter.le_last_observe t.id

/-- States that were added are not above the counter, unless the numbering began anew since. -/
theorem WF.added_le_counter (h : g.WF) (hb : g.Bounded) {pre since : List (Move σ)} {t : State}
    (hms : ∀ m ∈ pre ++ .update (.add t) :: since, m.LeavesCounter)
    (hids : g.HasIds (pre ++ .update (.add t) :: since))
    (hn : ¬((g.movedAll pre).after (.add t)).Renumbered since) :
    t.id ≤ (g.movedAll (pre ++ .update (.add t) :: since)).counter.last := by
  obtain ⟨hpre, hsince⟩ := List.forall_mem_append.1 hms
  obtain ⟨hadd, hsince⟩ := List.forall_mem_cons.1 hsince
  obtain ⟨hidsPre, hidAdd, hidsSince⟩ := hasIds_append.1 hids
  obtain ⟨h₁, hb₁, -⟩ := h.bounded_movedAll hb hpre hidsPre
  obtain ⟨h₂, hb₂, -⟩ := h₁.bounded_moved hb₁ hadd hidAdd
  obtain ⟨-, -, hle⟩ := h₂.bounded_movedAll hb₂ hsince hidsSince
  rw [movedAll_append]
  exact UInt64.le_trans (le_counter_add hb₁ t) (hle hn)

/-! ## Copies -/

theorem result_duplicate_of_exhausted (hc : g.counter.Exhausted) (s : State) :
    ((duplicate s).run g).result =
      if g.hasState rootId then .error (.alreadyVertex rootId)
      else .ok { state := { s with id := rootId } } := by
  rw [result_duplicate, copyOf, hc.next_eq]

/-- Copies are new until the ids run out. After moves that leave the counter to the automaton, and
of which none made a copy after the greatest id, a copy is made: its id is not that of a vertex,
and greater than those of all states that were added since the numbering began. Only after the
greatest id is it otherwise: there the copy gets the first id, or fails if there is a vertex of
that id. -/
theorem copy_above_added {ms : List (Move σ)} (hms : ∀ m ∈ ms, m.LeavesCounter) (hids : HasIds {} ms)
    (s : State) :
    let g := movedAll {} ms
    (¬g.counter.Exhausted →
      ∃ v, ((duplicate s).run g).result = .ok v ∧ g.hasState v.state.id = false ∧
        ∀ pre t since, ms = pre ++ .update (.add t) :: since →
          ¬((movedAll {} pre).after (.add t)).Renumbered since → t.id < v.state.id) ∧
    (g.counter.Exhausted →
      ((duplicate s).run g).result =
        if g.hasState rootId then .error (.alreadyVertex rootId)
        else .ok { state := { s with id := rootId } }) := by
  intro g
  have hb₀ : Bounded {} := by
    rintro id ⟨⟩
  obtain ⟨-, hb, -⟩ := WF.empty.bounded_movedAll hb₀ hms hids
  refine ⟨fun hc => ?_, fun hc => result_duplicate_of_exhausted hc s⟩
  have hroom := Counter.lt_of_not_exhausted hc
  obtain ⟨hr, hlt⟩ := result_duplicate_of_bounded hb hroom s
  refine ⟨_, hr, hb.next_absent hroom, ?_⟩
  rintro pre t since rfl hn
  exact UInt64.lt_of_le_of_lt (WF.empty.added_le_counter hb₀ hms hids hn) hlt

/-- A start, a copy of the root, and a state far above both that comes and goes. -/
def visited : List (Move Storage) :=
  [.update (.start {} {}), .update (.duplicate {}), .update (.add { id := 12 }),
    .update (.remove { id := 12 })]

theorem copy_above_added_visited :
    (∀ m ∈ visited, m.LeavesCounter) ∧ HasIds {} visited ∧
      ¬(movedAll {} visited).counter.Exhausted ∧
      ∃ v, ((duplicate {}).run (movedAll {} visited)).result = .ok v ∧ 12 < v.state.id := by
  have hms : ∀ m ∈ visited, m.LeavesCounter := by
    simp [visited, Move.LeavesCounter, Update.IsPlain]
  have hids : HasIds {} visited := by
    refine ⟨?_, ?_, ?_, ?_, trivial⟩
    · rintro s ⟨⟩
    · rintro s -
      decide
    · rintro s ⟨⟩
    · rintro s ⟨⟩
  have hc : ¬(movedAll {} visited).counter.Exhausted := by decide
  have hn : ¬((movedAll {} (visited.take 2)).after (.add { id := 12 })).Renumbered
      (visited.drop 3) := by
    rintro (h | h)
    · exact h
    · exact h
  obtain ⟨hcopy, -⟩ := copy_above_added hms hids {}
  obtain ⟨v, hv, -, habove⟩ := hcopy hc
  exact ⟨hms, hids, hc, v, hv,
    habove (visited.take 2) { id := 12 } (visited.drop 3) rfl hn⟩

/-- A root, and a state of the greatest id. -/
def greatest : List (Move Storage) :=
  [.update (.add { id := 0 }), .update (.add { id := 18446744073709551615 })]

/-- After the greatest id a copy of the root is refused. Without the root it is made, below the
state that was added. -/
theorem copy_after_greatest :
    (∀ m ∈ greatest, m.LeavesCounter) ∧
      ((duplicate {}).run (movedAll {} greatest)).result = .error (.alreadyVertex 0) ∧
      ∃ v, ((duplicate {}).run (movedAll {} (greatest.drop 1))).result = .ok v ∧
        ¬(18446744073709551615 < v.state.id) := by
  refine ⟨?_, by decide, { state := {} }, by decide, by decide⟩
  simp [greatest, Move.LeavesCounter, Update.IsPlain]

end Graph

end FlowAutomaton
