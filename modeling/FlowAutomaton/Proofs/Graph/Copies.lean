/-
Copies of states for every value of the counter. A copy always uses up the next id, which is the
first one again after the greatest. If that id is not that of a vertex, the copy becomes the vertex,
without edges, and nothing else changes; if it is, the copy is refused and nothing but the counter
changes. So copies that are tried again walk through the ids, and one of them is made before more
were refused than there are vertices.
-/
import FlowAutomaton.Proofs.Graph.Invariant
import Mathlib.Algebra.Ring.Nat
import Mathlib.Data.List.Perm.Subperm
import Mathlib.Data.Nat.Find

namespace FlowAutomaton

/-! ## Ids that are used up -/

namespace Counter

/-- The counter after some ids were used up. -/
def skip (c : Counter) (k : Nat) : Counter := ⟨c.last + UInt64.ofNat k⟩

theorem skip_zero (c : Counter) : c.skip 0 = c :=
  congrArg Counter.mk (UInt64.add_zero c.last)

theorem skip_advance (c : Counter) (k : Nat) : c.advance.skip k = c.skip (k + 1) := by
  show Counter.mk (c.last + 1 + UInt64.ofNat k) = ⟨c.last + UInt64.ofNat (k + 1)⟩
  rw [UInt64.ofNat_add, UInt64.add_assoc, UInt64.add_comm 1]
  rfl

theorem next_toNat (c : Counter) : c.next.toNat = (c.last.toNat + 1) % 2 ^ 64 :=
  UInt64.toNat_add c.last 1

theorem next_skip_toNat (c : Counter) (k : Nat) :
    (c.skip k).next.toNat = (c.last.toNat + k + 1) % 2 ^ 64 := by
  rw [next_toNat, skip, UInt64.toNat_add, UInt64.toNat_ofNat']
  omega

/-- As long as not all ids were used up, no id comes twice. -/
theorem next_skip_injective (c : Counter) {i j : Nat} (hi : i < 2 ^ 64) (hj : j < 2 ^ 64)
    (h : (c.skip i).next = (c.skip j).next) : i = j := by
  have hn := congrArg UInt64.toNat h
  rw [next_skip_toNat, next_skip_toNat] at hn
  have hc : c.last.toNat < 2 ^ 64 := c.last.toNat_lt
  omega

end Counter

namespace Graph

variable {g : Graph}

/-! ## One copy -/

theorem after_duplicate_of_present (h : g.hasState g.counter.next = true) (s : State) :
    g.after (.duplicate s) = g.withCounter g.counter.advance := by
  rw [after, Update.action, Action.run_map, run_duplicate_of_present h]

/-- What a copy under a new id leaves of each vertex. -/
theorem find?_duplicate (h : g.hasState g.counter.next = false) (s : State) (id : StateId) :
    ((duplicate s).run g).state.vertices.find? id =
      if id = g.counter.next then some { state := g.copyOf s } else g.vertices.find? id := by
  rw [run_duplicate_of_absent h]
  exact find?_withState id (g := g.withCounter g.counter.advance) (s := g.copyOf s) h

theorem hasEdge_duplicate (h : g.hasState g.counter.next = false) (s : State)
    (src dst : StateId) :
    ((duplicate s).run g).state.hasEdge src dst = g.hasEdge src dst := by
  rw [hasEdge, hasEdge, find?_duplicate h]
  split
  · rename_i hs
    rw [hs, find?_of_not_hasState h]
    rfl
  · rfl

theorem counter_duplicate (g : Graph) (s : State) :
    ((duplicate s).run g).state.counter = g.counter.advance := by
  cases h : g.hasState g.counter.next with
  | true =>
    rw [run_duplicate_of_present h]
    rfl
  | false =>
    rw [run_duplicate_of_absent h]
    rfl

/-! ## Copies that are tried again -/

/-- Copies of some states, one tried after the other, are all refused. -/
def AllRefused (g : Graph) : List State → Prop
  | [] => True
  | s :: ss => (duplicate s).Fails g ∧ (g.after (.duplicate s)).AllRefused ss

/-- Copies are refused one after the other where the ids that they use up are those of vertices,
and then they only move the counter. -/
theorem refused_of_present {ss : List State}
    (h : ∀ k < ss.length, g.hasState (g.counter.skip k).next = true) :
    g.AllRefused ss ∧ g.afterAll (ss.map .duplicate) = g.withCounter (g.counter.skip ss.length) := by
  induction ss generalizing g with
  | nil =>
    refine ⟨trivial, ?_⟩
    show g = g.withCounter (g.counter.skip 0)
    rw [Counter.skip_zero]
    rfl
  | cons s ss ih =>
    have hs : g.hasState g.counter.next = true := by
      have h0 := h 0 (Nat.succ_pos _)
      rw [Counter.skip_zero] at h0
      exact h0
    have hnext := after_duplicate_of_present hs s
    obtain ⟨href, hk⟩ := @ih (g.withCounter g.counter.advance) fun k hk => by
      show g.hasState (g.counter.advance.skip k).next = true
      rw [Counter.skip_advance]
      exact h (k + 1) (Nat.succ_lt_succ hk)
    rw [← hnext] at href
    refine ⟨⟨Action.fails_of_run (run_duplicate_of_present hs s), href⟩, ?_⟩
    show (g.after (.duplicate s)).afterAll (ss.map .duplicate) = _
    rw [hnext, hk]
    show g.withCounter (g.counter.advance.skip ss.length) = _
    rw [Counter.skip_advance]
    rfl

/-- More ids in a row than there are vertices are not all those of vertices. -/
theorem exists_free_id (hsize : g.size < 2 ^ 64) (c : Counter) :
    ∃ k ≤ g.size, g.hasState (c.skip k).next = false := by
  by_contra hnone
  have hall : ∀ k ≤ g.size, g.hasState (c.skip k).next = true := by
    intro k hk
    by_contra hf
    exact hnone ⟨k, hk, Bool.eq_false_iff.2 hf⟩
  let ids := (List.range (g.size + 1)).map fun k => (c.skip k).next
  have hnodup : ids.Nodup := by
    refine List.Nodup.map_on ?_ List.nodup_range
    intro i hi j hj h
    rw [List.mem_range] at hi hj
    exact c.next_skip_injective (by omega) (by omega) h
  have hsub : ids ⊆ g.vertices.keys := by
    intro id hid
    obtain ⟨k, hk, rfl⟩ := List.mem_map.1 hid
    rw [List.mem_range] at hk
    exact mem_keys_iff.2 (hall k (by omega))
  have hle := (hnodup.subperm hsub).length_le
  have hkeys : g.vertices.keys.length = g.size := List.length_map _
  rw [List.length_map, List.length_range, hkeys] at hle
  omega

/-- Of more copies in a row than there are vertices, one is made, and those before it have only
moved the counter. -/
theorem exists_copied (hsize : g.size < 2 ^ 64) {ss : List State} (hlen : g.size < ss.length) :
    ∃ pre s post, ss = pre ++ s :: post ∧ pre.length ≤ g.size ∧ g.AllRefused pre ∧
      (g.afterAll (pre.map .duplicate)).vertices = g.vertices ∧
      ∃ v, ((duplicate s).run (g.afterAll (pre.map .duplicate))).result = .ok v := by
  obtain ⟨k₀, hk₀, hfree₀⟩ := exists_free_id hsize g.counter
  have hex : ∃ k, g.hasState (g.counter.skip k).next = false := ⟨k₀, hfree₀⟩
  -- the first of the ids that is free, so that all copies before it are refused
  obtain ⟨k, hfree, hfirst⟩ : ∃ k, g.hasState (g.counter.skip k).next = false ∧
      ∀ j < k, g.hasState (g.counter.skip j).next = true := by
    refine ⟨Nat.find hex, Nat.find_spec hex, fun j hj => ?_⟩
    exact eq_true_of_ne_false (Nat.find_min hex hj)
  have hk : k ≤ g.size := by
    by_contra hgt
    rw [hfirst k₀ (by omega)] at hfree₀
    cases hfree₀
  have hlt : k < ss.length := by omega
  have htake : (ss.take k).length = k := by
    rw [List.length_take]
    omega
  have hpresent : ∀ j < (ss.take k).length, g.hasState (g.counter.skip j).next = true :=
    fun j hj => hfirst j (htake ▸ hj)
  obtain ⟨href, hafter⟩ := refused_of_present hpresent
  rw [htake] at hafter
  refine ⟨ss.take k, ss[k], ss.drop (k + 1), ?_, by omega, href, ?_, ?_⟩
  · rw [List.getElem_cons_drop, List.take_append_drop]
  · rw [hafter]
    rfl
  · rw [hafter, result_duplicate]
    show ∃ v, (if g.hasState (g.counter.skip k).next = true then _ else _) = Except.ok v
    rw [hfree]
    exact ⟨_, rfl⟩

/-- What a copy does, whatever the counter is, in any automaton. The next id, which is the first one
after the greatest, is used up. If it is not that of a vertex, the copy becomes its vertex, with all
that is known of the state and without edges, and the other vertices and all edges stay as they
were. If it is that of a vertex, the copy is refused, and all vertices stay as they were. Of more
copies in a row than there are vertices one is made. -/
theorem duplicate_for_every_counter (g : Graph) :
    (g.counter.next.toNat = (g.counter.last.toNat + 1) % 2 ^ 64) ∧
    (∀ s, ((duplicate s).run g).state.counter.last = g.counter.next) ∧
    (∀ s, g.hasState g.counter.next = false →
      ((duplicate s).run g).result = .ok { state := { s with id := g.counter.next } } ∧
      (∀ id, ((duplicate s).run g).state.vertices.find? id =
        if id = g.counter.next then
          some { state := { s with id := g.counter.next }, succs := [], preds := [] }
        else g.vertices.find? id) ∧
      ∀ src dst, ((duplicate s).run g).state.hasEdge src dst = g.hasEdge src dst) ∧
    (∀ s, g.hasState g.counter.next = true →
      ((duplicate s).run g).result = .error (.alreadyVertex g.counter.next) ∧
      ((duplicate s).run g).state.vertices = g.vertices) ∧
    (g.size < 2 ^ 64 → ∀ ss : List State, g.size < ss.length →
      ∃ pre s post, ss = pre ++ s :: post ∧ pre.length ≤ g.size ∧ g.AllRefused pre ∧
        (g.afterAll (pre.map .duplicate)).vertices = g.vertices ∧
        ∃ v, ((duplicate s).run (g.afterAll (pre.map .duplicate))).result = .ok v) := by
  refine ⟨g.counter.next_toNat, fun s => ?_, fun s h => ⟨?_, find?_duplicate h s,
    hasEdge_duplicate h s⟩, fun s h => ?_, fun hsize ss hlen => exists_copied hsize hlen⟩
  · rw [counter_duplicate]
    rfl
  · rw [run_duplicate_of_absent h]
    rfl
  · rw [run_duplicate_of_present h]
    exact ⟨rfl, rfl⟩

/-- Two vertices with the ids that come after the greatest one, which was issued last. -/
def wrapped : Graph :=
  afterAll {} [.add { id := 0 }, .add { id := 1 }, .link 0 1, .reset 18446744073709551615]

theorem duplicate_wrapped :
    wrapped.counter.next = 0 ∧ wrapped.size = 2 ∧
      ((duplicate { isFinal := true }).run wrapped).result = .error (.alreadyVertex 0) ∧
      ((duplicate { isFinal := true }).run wrapped).state.counter.last = 0 ∧
      ∃ pre s post, [({} : State), { isFinal := true }, {}] = pre ++ s :: post ∧
        pre.length ≤ 2 ∧ wrapped.AllRefused pre ∧
        (wrapped.afterAll (pre.map .duplicate)).vertices = wrapped.vertices ∧
        ∃ v, ((duplicate s).run (wrapped.afterAll (pre.map .duplicate))).result = .ok v := by
  obtain ⟨-, hcounter, -, hrefused, hretry⟩ := duplicate_for_every_counter wrapped
  have hsize : wrapped.size = 2 := rfl
  have hpresent : wrapped.hasState wrapped.counter.next = true := by decide
  exact ⟨by decide, hsize, (hrefused _ hpresent).1, hcounter _,
    hretry (by rw [hsize]; decide) _ (by rw [hsize]; decide)⟩

end Graph

end FlowAutomaton
