/-
Checkpoints that name a state or an edge more than once. They are read without complaint: of the
states with one id the first becomes the vertex, and the others are dropped, whatever they hold; an
edge that comes again is there already. So an automaton that is loaded has one vertex for each id
and one edge for each pair in the file, and the numbers that the file declares are its own exactly
if nothing is repeated.
-/
import FlowAutomaton.Proofs.Checkpoint.Accepted
import Mathlib.Data.List.Dedup

namespace FlowAutomaton.Checkpoint

open FileSystem (contents)
open FlowAutomaton.Graph (Represents)

/-! ## Declared numbers -/

/-- The numbers of states and of edges that some fields declare, each in front of its list. -/
def Declares (fs : List Field) (states edges : Nat) : Prop :=
  fs.head? = some (.count states) ∧
    ∃ l fs', (read : Reader (List State)).run fs = .ok (l, fs') ∧ fs'.head? = some (.count edges)

theorem Reader.length_times {α : Type} {r : Reader α} {n : Nat} {fs rest : List Field} {l : List α}
    (h : (Reader.times r n).run fs = .ok (l, rest)) : l.length = n := by
  induction n generalizing fs l with
  | zero =>
    cases h
    rfl
  | succ n ih =>
    obtain ⟨a, l', fs', -, hl, rfl⟩ := Reader.times_succ_eq_ok_iff.1 h
    rw [List.length_cons, ih hl]

theorem head?_of_read_count {fs rest : List Field} {n : Nat}
    (h : (read : Reader Nat).run fs = .ok (n, rest)) : fs.head? = some (.count n) := by
  match fs, h with
  | .count _ :: _, h =>
    cases h
    rfl

/-- A list that is read is as long as the number in front of it says. -/
theorem head?_of_read_list {α : Type} [Storable α] {fs rest : List Field} {l : List α}
    (h : (read : Reader (List α)).run fs = .ok (l, rest)) :
    fs.head? = some (.count l.length) := by
  obtain ⟨n, fs', hn, hl⟩ := read_list_eq_ok_iff.1 h
  rw [head?_of_read_count hn, Reader.length_times hl]

variable {fs : List Field} {l : List State} {m : List (StateId × StateId)} {last : StateId}

theorem Accepted.declares (h : Accepted fs l m last) : Declares fs l.length m.length := by
  obtain ⟨rest, hr⟩ := h.read
  obtain ⟨fs₁, hstates, hr⟩ := read_pair_eq_ok_iff.1 hr
  obtain ⟨fs₂, hedges, -⟩ := read_pair_eq_ok_iff.1 hr
  exact ⟨head?_of_read_list hstates, l, fs₁, hstates, head?_of_read_list hedges⟩

/-! ## What is kept -/

/-- What an automaton has kept of some states and edges that were read: each id once, with the
first state of that id, and each edge once. -/
structure Keeps (g : Graph) (l : List State) (m : List (StateId × StateId)) : Prop where
  size : g.size = (l.map State.id).dedup.length
  numEdges : g.numEdges = m.dedup.length
  state : ∀ id, g.state? id = l.find? fun s => s.id == id
  edge : ∀ src dst, g.hasEdge src dst = true ↔ (src, dst) ∈ m

variable {g : Graph}

theorem length_dedup_eq_iff {α : Type} [DecidableEq α] {l : List α} :
    l.dedup.length = l.length ↔ l.Nodup := by
  constructor
  · intro h
    exact List.dedup_eq_self.1 (l.dedup_sublist.eq_of_length h)
  · intro h
    rw [h.dedup]

theorem keeps_of_represents (h : Represents g (Digraph.ofStored l m last)) : Keeps g l m where
  size := by
    have hp : g.ids.Perm (l.map State.id).dedup := by
      refine (List.perm_ext_iff_of_nodup g.ids_sorted.nodup (List.nodup_dedup _)).2 fun id => ?_
      rw [Graph.mem_ids, h.hasState, Digraph.hasState, Digraph.states_ofStored, List.find?_isSome,
        List.mem_dedup, List.mem_map]
      simp only [beq_iff_eq]
    rw [← g.length_ids, hp.length_eq]
  numEdges := by
    have hp : g.edges.Perm m.dedup := by
      refine (List.perm_ext_iff_of_nodup (Graph.edges_sorted h.wf).nodup
        (List.nodup_dedup _)).2 fun e => ?_
      obtain ⟨u, w⟩ := e
      rw [Graph.mem_edges, h.succs, Digraph.mem_edges_ofStored, List.mem_dedup]
    rw [← g.length_edges, hp.length_eq]
  state id := by rw [h.states, Digraph.states_ofStored]
  edge src dst := by rw [Graph.hasEdge_iff, h.succs, Digraph.mem_edges_ofStored]

namespace Keeps

variable (h : Keeps g l m)

include h

theorem size_eq_iff : g.size = l.length ↔ (l.map State.id).Nodup := by
  rw [h.size, ← length_dedup_eq_iff, List.length_map]

theorem numEdges_eq_iff : g.numEdges = m.length ↔ m.Nodup := by
  rw [h.numEdges, length_dedup_eq_iff]

/-- No state was dropped that differs from the one that was kept, exactly if those with one id are
all the same. -/
theorem states_kept_iff :
    (∀ s ∈ l, g.state? s.id = some s) ↔ ∀ s ∈ l, ∀ t ∈ l, s.id = t.id → s = t := by
  constructor
  · intro hall s hs t ht hid
    have hs' := hall s hs
    rw [hid, hall t ht] at hs'
    exact (Option.some.inj hs').symm
  · intro hsame s hs
    rw [h.state]
    cases hf : l.find? fun t => t.id == s.id with
    | none => exact absurd (beq_self_eq_true s.id) (List.find?_eq_none.1 hf s hs)
    | some t =>
      have hid : t.id = s.id := by simpa using List.find?_some hf
      rw [hsame t (List.mem_of_find?_eq_some hf) s hs hid]

end Keeps

/-! ## Loading -/

variable {σ : Type} [FileSystem σ]

theorem Accepted.load_keeps (h : Accepted fs l m last) {path : String} {st : σ} {n : Nat}
    (hf : contents path st = .ok (.checkpoint fs n)) :
    ∃ g, ((load path).run st).result = .ok g ∧ Keeps g l m := by
  obtain ⟨k, es, hk, hr⟩ := h.run_restore path
  exact ⟨k, result_load hf hk, keeps_of_represents hr⟩

/-- Whether a checkpoint is loaded does not depend on whether it repeats anything. The automaton
has a vertex for each id and an edge for each pair of the file; of the states with one id it has
the first. It has as many vertices as states are declared exactly if no id is repeated, as many
edges as are declared exactly if no edge is repeated, and every state as it is in the file exactly
if those with one id are all the same. -/
theorem load_drops_repeats {path : String} {st : σ} {fs : List Field} {n : Nat}
    (hf : contents path st = .ok (.checkpoint fs n)) :
    ((∃ g, ((load path).run st).result = .ok g) ↔ ∃ l m last, Accepted fs l m last) ∧
      ∀ l m last, Accepted fs l m last → Declares fs l.length m.length ∧
        ∃ g, ((load path).run st).result = .ok g ∧ Keeps g l m ∧
          (g.size = l.length ↔ (l.map State.id).Nodup) ∧ (g.numEdges = m.length ↔ m.Nodup) ∧
          ((∀ s ∈ l, g.state? s.id = some s) ↔ ∀ s ∈ l, ∀ t ∈ l, s.id = t.id → s = t) := by
  refine ⟨⟨?_, ?_⟩, fun l m last ha => ?_⟩
  · rintro ⟨g, hg⟩
    obtain ⟨_, _, l, m, last, hf', ha, -⟩ := accepted_of_load hg
    cases hf.symm.trans hf'
    exact ⟨l, m, last, ha⟩
  · rintro ⟨l, m, last, ha⟩
    obtain ⟨g, hg, -⟩ := ha.load_keeps hf
    exact ⟨g, hg⟩
  · obtain ⟨g, hg, hkeep⟩ := ha.load_keeps hf
    exact ⟨ha.declares, g, hg, hkeep, hkeep.size_eq_iff, hkeep.numEdges_eq_iff,
      hkeep.states_kept_iff⟩

/-- A state twice with different contents, and an edge twice. -/
def repeating : List Field :=
  write (([{ id := 1 }, { id := 1, isFinal := true }], [(1, 1), (1, 1)], 1) :
    List State × List (StateId × StateId) × StateId)

/-- A file with these fields. -/
def repeatingFile : Storage := ⟨({} : Table String Stored).insert "r" (.checkpoint repeating 0)⟩

theorem accepted_repeating :
    Accepted repeating [{ id := 1 }, { id := 1, isFinal := true }] [(1, 1), (1, 1)] 1 := by
  refine ⟨⟨[], ?_⟩, by simp, by simp⟩
  have hr := read_write (([{ id := 1 }, { id := 1, isFinal := true }], [(1, 1), (1, 1)], 1) :
    List State × List (StateId × StateId) × StateId) []
  rw [List.append_nil] at hr
  exact hr

theorem load_drops_repeats_repeating :
    contents "r" repeatingFile = .ok (.checkpoint repeating 0) ∧
      ∃ g, ((load "r").run repeatingFile).result = .ok g ∧ g.size ≠ 2 ∧ g.numEdges ≠ 2 := by
  have hf : contents "r" repeatingFile = .ok (.checkpoint repeating 0) := rfl
  obtain ⟨-, g, hg, -, hsize, hedges, -⟩ := (load_drops_repeats hf).2 _ _ _ accepted_repeating
  refine ⟨hf, g, hg, fun hs => ?_, fun he => ?_⟩
  · exact absurd (hsize.1 hs) (by decide)
  · exact absurd (hedges.1 he) (by decide)

/-- Two states and two edges are declared and one of each is loaded; a state of the file is not
that of a vertex. -/
theorem repeating_accepted :
    Declares repeating 2 2 ∧ ∃ g, ((load "r").run repeatingFile).result = .ok g ∧
      g.size = 1 ∧ g.numEdges = 1 ∧ g.state? 1 = some { id := 1 } ∧
      g.state? 1 ≠ some { id := 1, isFinal := true } := by
  have hf : contents "r" repeatingFile = .ok (.checkpoint repeating 0) := rfl
  obtain ⟨g, hg, hkeep⟩ := accepted_repeating.load_keeps hf
  refine ⟨accepted_repeating.declares, g, hg, hkeep.size, hkeep.numEdges, hkeep.state 1, ?_⟩
  rw [hkeep.state 1]
  decide

end FlowAutomaton.Checkpoint
