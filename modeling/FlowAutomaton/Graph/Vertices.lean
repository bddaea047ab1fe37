/-
The vertices of an automaton, each stored under an id. The order in which they are stored means
nothing; no id has two vertices.
-/
import FlowAutomaton.State

namespace FlowAutomaton

/-- A state in an automaton, with the ids of its successors and predecessors in the order in
which the edges were made. -/
structure Vertex where
  state : State
  succs : List StateId := []
  preds : List StateId := []
  deriving DecidableEq

instance : Inhabited Vertex := ⟨{ state := {} }⟩

/-- Vertices by id. -/
structure Vertices where
  entries : List (StateId × Vertex) := []
  nodup : (entries.map Prod.fst).Nodup := by exact List.nodup_nil
  deriving DecidableEq

namespace Vertices

instance : Inhabited Vertices := ⟨{}⟩

/-- The ids, in no particular order. -/
def keys (vs : Vertices) : List StateId := vs.entries.map Prod.fst

/-- The vertex of an id. -/
def find? (vs : Vertices) (id : StateId) : Option Vertex :=
  (vs.entries.find? (·.1 == id)).map Prod.snd

/-- Whether an id is that of a vertex. -/
def contains (vs : Vertices) (id : StateId) : Bool := (vs.find? id).isSome

/-- The number of vertices. -/
def size (vs : Vertices) : Nat := vs.entries.length

/-- Stores a vertex under an id that has none; an id that has one keeps it. -/
def insertIfNew (vs : Vertices) (id : StateId) (v : Vertex) : Vertices :=
  if h : id ∈ vs.keys then vs
  else
    { entries := vs.entries ++ [(id, v)]
      nodup := by
        rw [List.map_append, List.map_singleton, List.nodup_append]
        refine ⟨vs.nodup, by simp, fun a ha b hb => ?_⟩
        have hb : b = id := List.mem_singleton.mp hb
        exact fun hab => h (hb ▸ hab ▸ ha) }

/-- Changes the vertex of an id, if there is one. -/
def modify (vs : Vertices) (id : StateId) (f : Vertex → Vertex) : Vertices where
  entries := vs.entries.map fun e => if e.1 = id then (e.1, f e.2) else e
  nodup := by
    have h : ((vs.entries.map fun e => if e.1 = id then (e.1, f e.2) else e).map Prod.fst) =
        vs.entries.map Prod.fst := by
      rw [List.map_map]
      refine List.map_congr_left fun e _ => ?_
      simp only [Function.comp]
      split <;> rfl
    exact h ▸ vs.nodup

/-- Removes the vertex of an id. -/
def erase (vs : Vertices) (id : StateId) : Vertices where
  entries := vs.entries.filter (·.1 ≠ id)
  nodup := vs.nodup.sublist (List.filter_sublist.map _)

/-! ## Look-up -/

/-- A vertex is found exactly if it is stored, as no id has two. -/
theorem find?_eq_some_iff {vs : Vertices} {id : StateId} {v : Vertex} :
    vs.find? id = some v ↔ (id, v) ∈ vs.entries := by
  obtain ⟨entries, nodup⟩ := vs
  unfold find?
  simp only
  induction entries with
  | nil => simp
  | cons e l ih =>
    have ⟨he, hl⟩ := List.nodup_cons.mp nodup
    rw [List.find?_cons, List.mem_cons]
    by_cases h : e.1 = id
    · subst h
      have hv : (e.1, v) ∉ l := fun hm => he (List.mem_map.mpr ⟨_, hm, rfl⟩)
      simp only [beq_self_eq_true, Option.map_some, Option.some.injEq, hv, or_false]
      exact ⟨fun h => h ▸ rfl, fun h => (congrArg Prod.snd h).symm⟩
    · have hv : (id, v) ≠ e := fun hm => h (congrArg Prod.fst hm).symm
      rw [beq_eq_false_iff_ne.mpr h]
      simp only [hv, false_or]
      exact ih hl

theorem find?_eq_none_iff {vs : Vertices} {id : StateId} :
    vs.find? id = none ↔ id ∉ vs.keys := by
  unfold find? keys
  rw [Option.map_eq_none_iff, List.find?_eq_none]
  simp only [beq_iff_eq, List.mem_map, not_exists, not_and]

theorem contains_iff {vs : Vertices} {id : StateId} : vs.contains id = true ↔ id ∈ vs.keys := by
  unfold contains
  rw [Option.isSome_iff_ne_none, ne_eq, find?_eq_none_iff, Decidable.not_not]

/-- What is found after each change: what the change does at its id, and what was there at the
others. -/
theorem find?_insertIfNew {vs : Vertices} {id : StateId} {v : Vertex} (h : id ∉ vs.keys)
    (k : StateId) :
    (vs.insertIfNew id v).find? k = if k = id then some v else vs.find? k := by
  unfold insertIfNew
  rw [dif_neg h]
  unfold find?
  rw [List.find?_append]
  by_cases hk : k = id
  · subst hk
    have : vs.entries.find? (·.1 == k) = none := by
      rw [List.find?_eq_none]
      intro e he hk
      exact h (List.mem_map.mpr ⟨e, he, beq_iff_eq.mp hk⟩)
    simp [this]
  · have hk' : (id == k) = false := beq_eq_false_iff_ne.mpr fun h => hk h.symm
    simp [hk, hk']

theorem find?_modify (vs : Vertices) (id : StateId) (f : Vertex → Vertex) (k : StateId) :
    (vs.modify id f).find? k = if k = id then (vs.find? id).map f else vs.find? k := by
  unfold modify find?
  simp only [List.find?_map, Option.map_map]
  have h : ((fun e : StateId × Vertex => e.1 == k) ∘
      fun e => if e.1 = id then (e.1, f e.2) else e) = fun e => e.1 == k := by
    funext e
    simp only [Function.comp]
    split <;> rfl
  rw [h]
  by_cases hk : k = id
  · subst hk
    rw [if_pos rfl]
    cases hf : vs.entries.find? (·.1 == k) with
    | none => rfl
    | some e =>
      have he : e.1 = k := by simpa using List.find?_some hf
      simp [he]
  · rw [if_neg hk]
    cases hf : vs.entries.find? (·.1 == k) with
    | none => rfl
    | some e =>
      have he : e.1 = k := by simpa using List.find?_some hf
      simp [he, hk]

theorem find?_erase (vs : Vertices) (id k : StateId) :
    (vs.erase id).find? k = if k = id then none else vs.find? k := by
  by_cases hk : k = id
  · subst hk
    rw [if_pos rfl, find?_eq_none_iff]
    simp [erase, keys]
  · rw [if_neg hk]
    unfold erase find?
    simp only [List.find?_filter]
    congr 2
    funext e
    by_cases he : e.1 = k
    · simp [he, hk]
    · simp [he]

end Vertices

end FlowAutomaton
