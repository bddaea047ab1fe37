/-
No id is issued twice. In a run that starts with an empty or a loaded automaton and uses the
counter only to number copies, every copy gets an id above those of all vertices there have been,
removed ones included, as long as the counter does not wrap.

The counter is a high-water mark: it is not below any vertex (`Bounded`), every update keeps it so,
and no update but a start lowers it. A start does, but only where there are no vertices.
-/
import FlowAutomaton.Proofs.Checkpoint.Accepted
import Mathlib.Algebra.Ring.Nat

namespace FlowAutomaton

/-! ## The counter -/

namespace Counter

theorem le_observe (c : Counter) (id : StateId) : c.last ≤ (c.observe id).last := by
  rw [observe]
  split
  · rename_i h
    exact UInt64.le_of_lt h
  · exact UInt64.le_refl c.last

theorem le_last_observe (c : Counter) (id : StateId) : id ≤ (c.observe id).last := by
  rw [observe]
  split
  · exact UInt64.le_refl id
  · rename_i h
    exact UInt64.not_lt.1 h

/-- The next id is greater than the last one, unless the counter wraps. -/
theorem lt_next {c : Counter} (h : c.last.toNat < 2 ^ 64 - 1) : c.last < c.next := by
  rw [UInt64.lt_iff_toNat_lt, next, UInt64.toNat_add]
  have h1 : (1 : UInt64).toNat = 1 := rfl
  omega

end Counter

/-! ## High-water marks of plain graphs -/

namespace Digraph

/-- The counter is not below any vertex. -/
def Bounded (d : Digraph) : Prop := ∀ id, d.hasState id = true → id ≤ d.counter.last

variable {d e : Digraph}

/-- A counter that has not fallen is still not below any vertex, if it is not below the new
ones. -/
theorem Bounded.of_le (h : d.Bounded) (hc : d.counter.last ≤ e.counter.last)
    (hs : ∀ id, e.hasState id = true → d.hasState id = true ∨ id ≤ e.counter.last) : e.Bounded := by
  intro id hi
  rcases hs id hi with hd | hle
  · exact UInt64.le_trans (h id hd) hc
  · exact hle

theorem hasState_insert {s : State} {id : StateId} (h : (d.insert s).hasState id = true) :
    d.hasState id = true ∨ id = s.id := by
  rw [hasState, states_insert] at h
  split at h
  · rename_i hi
    exact .inr hi
  · exact .inl h

theorem hasState_remove {id k : StateId} (h : (d.remove k).hasState id = true) :
    d.hasState id = true := by
  rw [hasState, states_remove] at h
  split at h
  · cases h
  · exact h

theorem hasState_change {id k : StateId} {c : State.Change} (h : (d.change k c).hasState id = true) :
    d.hasState id = true := by
  rw [hasState, states_change] at h
  split at h
  · rename_i hi
    rw [Option.isSome_map] at h
    rw [hi]
    exact h
  · exact h

end Digraph

namespace Graph

/-- Updates that use the counter only to number copies. -/
def Update.IsPlain : Update → Prop
  | start _ _ => False
  | issue => False
  | observe _ => False
  | reset _ => False
  | _ => True

end Graph

namespace Digraph

variable {d : Digraph}

/-- An update that uses the counter only to number copies does not lower it, and leaves it not
below any vertex. -/
theorem Bounded.after (h : d.Bounded) {u : Graph.Update} (hu : u.IsPlain)
    (hroom : ∀ s, u = .duplicate s → d.counter.last.toNat < 2 ^ 64 - 1) :
    d.counter.last ≤ (d.after u).counter.last ∧ (d.after u).Bounded := by
  -- all but additions and copies keep the counter and make no vertex
  have same {e : Digraph} (hc : e.counter = d.counter)
      (hs : ∀ id, e.hasState id = true → d.hasState id = true) :
      d.counter.last ≤ e.counter.last ∧ e.Bounded := by
    have hle : d.counter.last ≤ e.counter.last := by
      rw [hc]
      exact UInt64.le_refl d.counter.last
    exact ⟨hle, h.of_le hle fun id hi => .inl (hs id hi)⟩
  cases u with
  | start ip c => exact hu.elim
  | add s =>
    rw [Digraph.after, add]
    split
    · exact same rfl fun _ => id
    · have hle := d.counter.le_observe s.id
      refine ⟨hle, h.of_le hle fun id hi => ?_⟩
      rcases hasState_insert hi with hd | rfl
      · exact .inl hd
      · exact .inr (d.counter.le_last_observe s.id)
  | remove s => exact same rfl fun _ => hasState_remove
  | link src dst =>
    rw [Digraph.after]
    split
    · exact same rfl fun _ => id
    · exact same rfl fun _ => id
  | unlink src dst => exact same rfl fun _ => id
  | duplicate s =>
    have hle : d.counter.last ≤ d.counter.advance.last :=
      UInt64.le_of_lt (Counter.lt_next (hroom s rfl))
    rw [Digraph.after, duplicate]
    split
    · exact ⟨hle, h.of_le hle fun _ => .inl⟩
    · refine ⟨hle, h.of_le hle fun id hi => ?_⟩
      rcases hasState_insert hi with hd | rfl
      · exact .inl hd
      · exact .inr (UInt64.le_refl d.counter.next)
  | change id c => exact same rfl fun _ => hasState_change
  | issue => exact hu.elim
  | observe id => exact hu.elim
  | reset last => exact hu.elim

/-- A start keeps the vertices there are. Where there are none, it makes one and numbers from
there on. -/
theorem Bounded.start (h : d.Bounded) (ip : Address) (c : Configuration) :
    (d.start ip c).Bounded ∧ ∀ id, d.hasState id = true → (d.start ip c).hasState id = true := by
  rw [Digraph.start]
  split
  · rename_i hempty
    have habsent : ∀ id, d.hasState id = false := fun id => by rw [hasState, hempty id]; rfl
    split
    · refine ⟨fun id hi => ?_, fun id hi => ?_⟩
      · rcases hasState_insert hi with hd | rfl
        · rw [habsent id] at hd
          cases hd
        · exact UInt64.le_refl rootId
      · rw [habsent id] at hi
        cases hi
    · exact ⟨h, fun _ => id⟩
  · exact ⟨h, fun _ => id⟩

end Digraph

namespace Graph

variable {g : Graph}

/-! ## High-water marks of automata -/

/-- The counter is not below any vertex. -/
def Bounded (g : Graph) : Prop := ∀ id, g.hasState id = true → id ≤ g.counter.last

theorem WF.bounded_iff (h : g.WF) : g.Bounded ↔ g.view.Bounded := by
  refine forall_congr' fun id => ?_
  rw [h.represents.hasState]
  rfl

theorem WF.view_after (h : g.WF) (u : Update) : (g.after u).view = g.view.after u :=
  (h.represents.after u).view_eq

theorem WF.bounded_after (h : g.WF) (hb : g.Bounded) {u : Update} (hu : u.IsPlain)
    (hroom : ∀ s, u = .duplicate s → g.counter.last.toNat < 2 ^ 64 - 1) :
    g.counter.last ≤ (g.after u).counter.last ∧ (g.after u).Bounded := by
  obtain ⟨hle, hbd⟩ := (h.bounded_iff.1 hb).after hu hroom
  rw [← h.view_after] at hle hbd
  exact ⟨hle, (h.after u).bounded_iff.2 hbd⟩

theorem WF.bounded_start (h : g.WF) (hb : g.Bounded) (ip : Address) (c : Configuration) :
    (g.after (.start ip c)).Bounded ∧
      ∀ id, g.hasState id = true → (g.after (.start ip c)).hasState id = true := by
  have ha := h.after (.start ip c)
  obtain ⟨hbd, hs⟩ := (h.bounded_iff.1 hb).start ip c
  refine ⟨ha.bounded_iff.2 ?_, fun id hi => ?_⟩
  · rw [h.view_after]
    exact hbd
  · rw [ha.represents.hasState, h.view_after]
    rw [h.represents.hasState] at hi
    exact hs id hi

/-! ## Runs -/

/-- The counter does not wrap at any copy that a run makes. -/
def HasRoom (g : Graph) (us : List Update) : Prop :=
  ∀ pre s, pre ++ [.duplicate s] <+: us → (g.afterAll pre).counter.last.toNat < 2 ^ 64 - 1

theorem hasRoom_nil : g.HasRoom [] := by
  intro pre s hp
  simp at hp

theorem hasRoom_cons {u : Update} {us : List Update} :
    g.HasRoom (u :: us) ↔
      (∀ s, u = .duplicate s → g.counter.last.toNat < 2 ^ 64 - 1) ∧ (g.after u).HasRoom us := by
  constructor
  · intro h
    refine ⟨fun s hs => h [] s ?_, fun pre s hp => h (u :: pre) s ?_⟩
    · rw [hs]
      exact List.prefix_append [.duplicate s] us
    · exact (List.prefix_cons_inj u).2 hp
  · rintro ⟨hu, hus⟩ pre s hp
    cases pre with
    | nil => exact hu s (List.cons_prefix_cons.1 hp).1.symm
    | cons v pre =>
      obtain ⟨hv, hpre⟩ := List.cons_prefix_cons.1 hp
      subst hv
      exact hus pre s hpre

theorem afterAll_append (g : Graph) (us vs : List Update) :
    g.afterAll (us ++ vs) = (g.afterAll us).afterAll vs :=
  List.foldl_append

theorem HasRoom.of_append {us vs : List Update} (h : g.HasRoom (us ++ vs)) :
    g.HasRoom us ∧ (g.afterAll us).HasRoom vs := by
  induction us generalizing g with
  | nil => exact ⟨hasRoom_nil, h⟩
  | cons u us ih =>
    obtain ⟨hu, hus⟩ := hasRoom_cons.1 h
    obtain ⟨h1, h2⟩ := ih hus
    exact ⟨hasRoom_cons.2 ⟨hu, h1⟩, h2⟩

/-- In a run of updates that use the counter only to number copies, the counter does not fall and
is not below any vertex. -/
theorem WF.bounded_afterAll (h : g.WF) (hb : g.Bounded) {us : List Update}
    (hus : ∀ u ∈ us, u.IsPlain) (hroom : g.HasRoom us) :
    g.counter.last ≤ (g.afterAll us).counter.last ∧ (g.afterAll us).Bounded := by
  induction us generalizing g with
  | nil => exact ⟨UInt64.le_refl g.counter.last, hb⟩
  | cons u us ih =>
    obtain ⟨hu, hus⟩ := List.forall_mem_cons.1 hus
    obtain ⟨hr, hroom⟩ := hasRoom_cons.1 hroom
    obtain ⟨hle, hb⟩ := h.bounded_after hb hu hr
    obtain ⟨hle', hb'⟩ := ih (h.after u) hb hus hroom
    exact ⟨UInt64.le_trans hle hle', hb'⟩

/-! ## Copies -/

theorem Bounded.next_absent (hb : g.Bounded) (hroom : g.counter.last.toNat < 2 ^ 64 - 1) :
    g.hasState g.counter.next = false := by
  rw [← Bool.not_eq_true]
  intro hi
  exact UInt64.not_lt.2 (hb g.counter.next hi) (Counter.lt_next hroom)

theorem result_duplicate_of_bounded (hb : g.Bounded) (hroom : g.counter.last.toNat < 2 ^ 64 - 1)
    (s : State) :
    ((duplicate s).run g).result = .ok { state := g.copyOf s } ∧ g.counter.last < (g.copyOf s).id := by
  rw [run_duplicate_of_absent (hb.next_absent hroom)]
  exact ⟨rfl, Counter.lt_next hroom⟩

/-- A copy gets an id above all vertices that a run has had so far. -/
theorem WF.duplicate_above (h : g.WF) (hb : g.Bounded) {us pre : List Update} {s : State}
    (hus : ∀ u ∈ us, u.IsPlain) (hroom : g.HasRoom us) (hp : pre ++ [.duplicate s] <+: us) :
    ∃ v, ((duplicate s).run (g.afterAll pre)).result = .ok v ∧
      ∀ past, past <+: pre → ∀ id, (g.afterAll past).hasState id = true → id < v.state.id := by
  have hlast := hroom pre s hp
  obtain ⟨post, rfl⟩ := hp
  rw [List.append_assoc] at hus hroom
  have hpre := (List.forall_mem_append.1 hus).1
  obtain ⟨hroom, -⟩ := hroom.of_append
  obtain ⟨-, hbpre⟩ := h.bounded_afterAll hb hpre hroom
  obtain ⟨hr, hlt⟩ := result_duplicate_of_bounded hbpre hlast s
  refine ⟨_, hr, ?_⟩
  rintro past ⟨since, rfl⟩ id hi
  obtain ⟨hpast, hsince⟩ := List.forall_mem_append.1 hpre
  obtain ⟨hroomPast, hroomSince⟩ := hroom.of_append
  -- the counter was not below the vertex then, and has not fallen since
  obtain ⟨-, hbpast⟩ := h.bounded_afterAll hb hpast hroomPast
  obtain ⟨hle, -⟩ := (h.afterAll past).bounded_afterAll hbpast hsince hroomSince
  rw [← afterAll_append] at hle
  exact UInt64.lt_of_le_of_lt (UInt64.le_trans (hbpast id hi) hle) hlt

/-- The id of the copy that an update makes. -/
def copyId? (g : Graph) : Update → Option StateId
  | .duplicate s => ((duplicate s).run g).result.toOption.map fun v => v.state.id
  | _ => none

/-- The ids of the copies that a run makes, in the order of the run. -/
def copyIds (g : Graph) : List Update → List StateId
  | [] => []
  | u :: us => (g.copyId? u).toList ++ (g.after u).copyIds us

theorem copyId?_eq_some (hb : g.Bounded) {u : Update} {id : StateId}
    (hroom : ∀ s, u = .duplicate s → g.counter.last.toNat < 2 ^ 64 - 1)
    (hi : g.copyId? u = some id) : g.counter.last < id ∧ id = (g.after u).counter.last := by
  cases u with
  | duplicate s =>
    obtain ⟨hr, hlt⟩ := result_duplicate_of_bounded hb (hroom s rfl) s
    rw [copyId?, hr] at hi
    cases hi
    refine ⟨hlt, ?_⟩
    rw [Graph.after, Update.action, Action.run_map,
      run_duplicate_of_absent (hb.next_absent (hroom s rfl))]
    rfl
  | _ => cases hi

/-- The ids of copies increase along a run, from above the counter on. -/
theorem WF.copyIds_increase (h : g.WF) (hb : g.Bounded) {us : List Update}
    (hus : ∀ u ∈ us, u.IsPlain) (hroom : g.HasRoom us) :
    (∀ id ∈ g.copyIds us, g.counter.last < id) ∧ (g.copyIds us).Pairwise (· < ·) := by
  induction us generalizing g with
  | nil => exact ⟨by simp [copyIds], .nil⟩
  | cons u us ih =>
    obtain ⟨hu, hus⟩ := List.forall_mem_cons.1 hus
    obtain ⟨hr, hroom⟩ := hasRoom_cons.1 hroom
    obtain ⟨hle, hb'⟩ := h.bounded_after hb hu hr
    obtain ⟨hlt, hsorted⟩ := ih (h.after u) hb' hus hroom
    -- a copy made first is where the counter stands for the rest of the run
    rw [copyIds]
    cases hi : g.copyId? u with
    | none => exact ⟨fun id hid => UInt64.lt_of_le_of_lt hle (hlt id hid), hsorted⟩
    | some i =>
      obtain ⟨hgt, he⟩ := copyId?_eq_some hb hr hi
      rw [Option.toList_some, List.singleton_append]
      refine ⟨fun id hid => ?_, List.pairwise_cons.2 ⟨fun id hid => he ▸ hlt id hid, hsorted⟩⟩
      rcases List.mem_cons.1 hid with rfl | hid
      · exact hgt
      · exact UInt64.lt_of_le_of_lt hle (hlt id hid)

/-! ## Runs of an analysis -/

/-- A run that may begin with a start, and then uses the counter only to number copies. -/
def IsAnalysis : List Update → Prop
  | [] => True
  | u :: us => ((∃ ip c, u = .start ip c) ∨ u.IsPlain) ∧ ∀ v ∈ us, v.IsPlain

/-- An empty or a loaded automaton is well-formed, and its counter is not below any vertex. -/
theorem bounded_of_empty_or_loaded
    (h : g = {} ∨ ∃ (σ : Type) (_ : FileSystem σ) (path : String) (st : σ),
      ((Checkpoint.load path).run st).result = .ok g) :
    g.WF ∧ g.Bounded := by
  rcases h with rfl | ⟨σ, _, path, st, hl⟩
  · refine ⟨WF.empty, ?_⟩
    rintro id ⟨⟩
  · obtain ⟨fs, n, l, m, last, -, ha, hr⟩ := Checkpoint.accepted_of_load hl
    exact ⟨hr.wf, ha.le_counter hr⟩

/-- Ids are never issued again. Along a run of an analysis on an empty or a loaded automaton, in
which the counter does not wrap, every copy is made; its id is greater than those of all vertices
that there have been before, and so the ids of the copies increase. -/
theorem ids_never_reissued {us : List Update}
    (h : g = {} ∨ ∃ (σ : Type) (_ : FileSystem σ) (path : String) (st : σ),
      ((Checkpoint.load path).run st).result = .ok g)
    (hrun : IsAnalysis us) (hroom : g.HasRoom us) :
    (∀ pre s, pre ++ [.duplicate s] <+: us →
      ∃ v, ((duplicate s).run (g.afterAll pre)).result = .ok v ∧
        ∀ past, past <+: pre → ∀ id, (g.afterAll past).hasState id = true → id < v.state.id) ∧
    (g.copyIds us).Pairwise (· < ·) := by
  obtain ⟨hwf, hb⟩ := bounded_of_empty_or_loaded h
  cases us with
  | nil => exact ⟨fun pre s hp => by simp at hp, .nil⟩
  | cons u us =>
    obtain ⟨⟨ip, c, rfl⟩ | hu, hus⟩ := hrun
    · -- what was a vertex before the start still is one after it
      obtain ⟨hb₁, hkeep⟩ := hwf.bounded_start hb ip c
      have hwf₁ := hwf.after (.start ip c)
      have hroom₁ := (hasRoom_cons.1 hroom).2
      refine ⟨fun pre s hp => ?_, (hwf₁.copyIds_increase hb₁ hus hroom₁).2⟩
      cases pre with
      | nil => cases (List.cons_prefix_cons.1 hp).1
      | cons w pre =>
        obtain ⟨hw, hpre⟩ := List.cons_prefix_cons.1 hp
        subst hw
        obtain ⟨v, hr, habove⟩ := hwf₁.duplicate_above hb₁ hus hroom₁ hpre
        refine ⟨v, hr, fun past hpast id hi => ?_⟩
        cases past with
        | nil => exact habove [] (List.nil_prefix) id (hkeep id hi)
        | cons w past =>
          obtain ⟨hw, hpast'⟩ := List.cons_prefix_cons.1 hpast
          subst hw
          exact habove past hpast' id hi
    · have hall := List.forall_mem_cons.2 ⟨hu, hus⟩
      exact ⟨fun pre s hp => hwf.duplicate_above hb hall hroom hp,
        (hwf.copyIds_increase hb hall hroom).2⟩

/-- A start, and two copies, between which the first one is removed and a greater id comes and
goes. -/
def copyTwice : List Update :=
  [.start {} {}, .duplicate {}, .remove { id := 1 }, .add { id := 10 }, .remove { id := 10 },
    .duplicate {}]

theorem ids_never_reissued_copyTwice :
    IsAnalysis copyTwice ∧ HasRoom {} copyTwice ∧ copyIds {} copyTwice = [1, 11] ∧
      (copyIds {} copyTwice).Pairwise (· < ·) ∧
      ∃ v, ((duplicate {}).run (afterAll {} (copyTwice.take 5))).result = .ok v ∧
        10 < v.state.id ∧ 1 < v.state.id := by
  have hrun : IsAnalysis copyTwice := by
    refine ⟨.inl ⟨{}, {}, rfl⟩, ?_⟩
    simp [Update.IsPlain]
  have hroom : HasRoom {} copyTwice := by
    simp only [copyTwice, hasRoom_cons]
    refine ⟨?_, ?_, ?_, ?_, ?_, ?_, hasRoom_nil⟩ <;> rintro s - <;> decide
  obtain ⟨habove, hsorted⟩ := ids_never_reissued (.inl rfl) hrun hroom
  obtain ⟨v, hr, hv⟩ := habove (copyTwice.take 5) {} ⟨[], rfl⟩
  have h1 : (afterAll {} (copyTwice.take 2)).hasState 1 = true := by decide
  have h10 : (afterAll {} (copyTwice.take 4)).hasState 10 = true := by decide
  exact ⟨hrun, hroom, by decide, hsorted, v, hr, hv (copyTwice.take 4) ⟨[.remove { id := 10 }], rfl⟩ 10 h10,
    hv (copyTwice.take 2) ⟨[.remove { id := 1 }, .add { id := 10 }, .remove { id := 10 }], rfl⟩ 1 h1⟩

end Graph

end FlowAutomaton
