/-
What an automaton says of an id: its state, its successors and its predecessors, and what a
single change of the vertices does to the three. Nothing else about the vertices matters, in
particular not their order.
-/
import FlowAutomaton.Graph.Query
import Mathlib.Data.List.Nodup

namespace FlowAutomaton.Graph

/-! ## The three look-ups -/

/-- The state of a vertex. -/
def state? (g : Graph) (id : StateId) : Option State := (g.vertices.find? id).map Vertex.state

/-- The ids that a vertex leads to, in the order of its edges; none where there is no vertex. -/
def succIds (g : Graph) (id : StateId) : List StateId :=
  ((g.vertices.find? id).map Vertex.succs).getD []

/-- The ids that lead to a vertex, in the order of its edges; none where there is no vertex. -/
def predIds (g : Graph) (id : StateId) : List StateId :=
  ((g.vertices.find? id).map Vertex.preds).getD []

section

variable {g : Graph} {id : StateId} {v : Vertex}

/-- A vertex that is found says what the three look-ups answer. -/
theorem state?_of_find (h : g.vertices.find? id = some v) : g.state? id = some v.state := by
  simp [state?, h]

theorem succIds_of_find (h : g.vertices.find? id = some v) : g.succIds id = v.succs := by
  simp [succIds, h]

theorem predIds_of_find (h : g.vertices.find? id = some v) : g.predIds id = v.preds := by
  simp [predIds, h]

/-- Where no vertex is found, there is no state and there are no neighbours. -/
theorem state?_of_absent (h : g.vertices.find? id = none) : g.state? id = none := by
  simp [state?, h]

theorem succIds_of_absent (h : g.vertices.find? id = none) : g.succIds id = [] := by
  simp [succIds, h]

theorem predIds_of_absent (h : g.vertices.find? id = none) : g.predIds id = [] := by
  simp [predIds, h]

/-- A vertex is its state with its two lists of neighbours. -/
theorem find?_of_state {s : State} (h : g.state? id = some s) :
    g.vertices.find? id = some ⟨s, g.succIds id, g.predIds id⟩ := by
  cases hf : g.vertices.find? id with
  | none => rw [state?_of_absent hf] at h; cases h
  | some v =>
    rw [state?_of_find hf] at h
    cases h
    rw [succIds_of_find hf, predIds_of_find hf]

theorem state?_eq_none_iff : g.state? id = none ↔ g.vertices.find? id = none := by
  unfold state?
  rw [Option.map_eq_none_iff]

/-- An id is that of a vertex exactly if it has a state. -/
theorem hasState_iff : g.hasState id = true ↔ ∃ s, g.state? id = some s := by
  unfold hasState Vertices.contains state?
  rw [Option.isSome_iff_exists]
  constructor
  · rintro ⟨v, hv⟩
    exact ⟨v.state, by rw [hv]; rfl⟩
  · rintro ⟨s, hs⟩
    obtain ⟨v, hv, -⟩ := Option.map_eq_some_iff.1 hs
    exact ⟨v, hv⟩

theorem hasState_eq_false_iff : g.hasState id = false ↔ g.state? id = none := by
  rw [← Bool.not_eq_true, hasState_iff]
  cases g.state? id <;> simp

theorem hasState_of_find (h : g.vertices.find? id = some v) : g.hasState id = true :=
  hasState_iff.2 ⟨v.state, state?_of_find h⟩

theorem hasState_of_absent (h : g.vertices.find? id = none) : g.hasState id = false :=
  hasState_eq_false_iff.2 (state?_of_absent h)

/-- What is a vertex is found, and what is not is not. -/
theorem find?_of_hasState (h : g.hasState id = true) : ∃ v, g.vertices.find? id = some v := by
  obtain ⟨s, hs⟩ := hasState_iff.1 h
  exact ⟨_, find?_of_state hs⟩

theorem find?_of_not_hasState (h : g.hasState id = false) : g.vertices.find? id = none :=
  state?_eq_none_iff.1 (hasState_eq_false_iff.1 h)

/-- Only vertices have successors, and only vertices have predecessors. -/
theorem hasState_of_mem_succIds {w : StateId} (h : w ∈ g.succIds id) : g.hasState id = true := by
  cases hf : g.vertices.find? id with
  | none => rw [succIds_of_absent hf] at h; cases h
  | some v => exact hasState_of_find hf

theorem hasState_of_mem_predIds {u : StateId} (h : u ∈ g.predIds id) : g.hasState id = true := by
  cases hf : g.vertices.find? id with
  | none => rw [predIds_of_absent hf] at h; cases h
  | some v => exact hasState_of_find hf

/-- There is an edge exactly if its source lists its target. -/
theorem hasEdge_iff {src dst : StateId} : g.hasEdge src dst = true ↔ dst ∈ g.succIds src := by
  unfold hasEdge succIds
  cases g.vertices.find? src <;> simp

theorem mem_keys_iff : id ∈ g.vertices.keys ↔ g.hasState id = true :=
  Vertices.contains_iff.symm

end

/-! ## Adjacency lists -/

/-- Putting an id into an adjacency list adds it to the members. -/
theorem mem_insertAdjacent {ids : List StateId} {id k : StateId} :
    k ∈ insertAdjacent ids id ↔ k ∈ ids ∨ k = id := by
  unfold insertAdjacent
  split
  · rename_i h
    constructor
    · exact .inl
    · rintro (hk | rfl)
      exacts [hk, h]
  · rw [List.mem_append, List.mem_singleton]

/-- Taking an id out of an adjacency list leaves the other members. -/
theorem mem_removeAdjacent {ids : List StateId} {id k : StateId} :
    k ∈ removeAdjacent ids id ↔ k ∈ ids ∧ k ≠ id := by
  simp [removeAdjacent]

theorem removeAdjacent_of_notMem {ids : List StateId} {id : StateId} (h : id ∉ ids) :
    removeAdjacent ids id = ids := by
  unfold removeAdjacent
  rw [List.filter_eq_self]
  rintro k hk
  simp only [ne_eq, decide_not, Bool.not_eq_eq_eq_not, Bool.not_true, decide_eq_false_iff_not]
  rintro rfl
  exact h hk

/-- Taking an id out a second time changes nothing. -/
theorem removeAdjacent_idem (ids : List StateId) (id : StateId) :
    removeAdjacent (removeAdjacent ids id) id = removeAdjacent ids id :=
  removeAdjacent_of_notMem fun h => (mem_removeAdjacent.1 h).2 rfl

/-- An id is put in only where it is missing, so no id comes twice. -/
theorem nodup_insertAdjacent {ids : List StateId} (h : ids.Nodup) (id : StateId) :
    (insertAdjacent ids id).Nodup := by
  unfold insertAdjacent
  split
  · exact h
  · rename_i hid
    refine List.nodup_append.2 ⟨h, List.nodup_singleton _, fun a ha b hb hab => ?_⟩
    rw [List.mem_singleton] at hb
    exact hid (hb ▸ hab ▸ ha)

theorem nodup_removeAdjacent {ids : List StateId} (h : ids.Nodup) (id : StateId) :
    (removeAdjacent ids id).Nodup := h.filter _

/-! ## Families of adjacency lists, changed at one id -/

section

variable {lists : StateId → List StateId} {u w src dst : StateId}

/-- Putting an id into the list at one id is one more pair of the family as a whole. -/
theorem mem_insertAt :
    w ∈ (if u = src then insertAdjacent (lists src) dst else lists u) ↔
      w ∈ lists u ∨ (u = src ∧ w = dst) := by
  by_cases hu : u = src
  · subst hu
    rw [if_pos rfl, mem_insertAdjacent]
    tauto
  · rw [if_neg hu]
    tauto

/-- Taking an id out of the list at one id is one pair less of the family as a whole. -/
theorem mem_removeAt :
    w ∈ (if u = src then removeAdjacent (lists src) dst else lists u) ↔
      w ∈ lists u ∧ ¬(u = src ∧ w = dst) := by
  by_cases hu : u = src
  · subst hu
    rw [if_pos rfl, mem_removeAdjacent]
    tauto
  · rw [if_neg hu]
    tauto

/-- Neither change makes an id come twice in a list. -/
theorem nodup_insertAt (h : ∀ id, (lists id).Nodup) :
    (if u = src then insertAdjacent (lists src) dst else lists u).Nodup := by
  split
  · exact nodup_insertAdjacent (h src) dst
  · exact h u

theorem nodup_removeAt (h : ∀ id, (lists id).Nodup) :
    (if u = src then removeAdjacent (lists src) dst else lists u).Nodup := by
  split
  · exact nodup_removeAdjacent (h src) dst
  · exact h u

end

/-! ## Single changes -/

/-- Changing a vertex leaves alone what the change does not touch. -/
theorem map_find?_modify {α : Type} (vs : Vertices) (id k : StateId) {f : Vertex → Vertex}
    {part : Vertex → α} (h : ∀ v, part (f v) = part v) :
    ((vs.modify id f).find? k).map part = (vs.find? k).map part := by
  rw [Vertices.find?_modify]
  split
  · rename_i hk
    subst hk
    rw [Option.map_map]
    exact congrArg (Option.map · _) (funext h)
  · rfl

section

variable {vs : Vertices} {id k : StateId} {f : Vertex → Vertex} {part : Vertex → List StateId}
  {F : List StateId → List StateId}

/-- Changing a vertex changes a list that is kept at it as it changes that list by itself. -/
theorem getD_find?_modify (h : ∀ v, part (f v) = F (part v)) :
    (((vs.modify id f).find? k).map part).getD [] =
      if k = id ∧ vs.contains id = true then F (((vs.find? id).map part).getD [])
      else ((vs.find? k).map part).getD [] := by
  rw [Vertices.find?_modify, Vertices.contains]
  by_cases hk : k = id
  · subst hk
    cases vs.find? k with
    | none => simp
    | some v => simp [h]
  · rw [if_neg hk, if_neg fun hc => hk hc.1]

/-- Where a change of a list leaves the empty list alone, it makes no difference whether there is a
vertex. -/
theorem getD_find?_modify_of_nil (h : ∀ v, part (f v) = F (part v)) (hn : F [] = []) :
    (((vs.modify id f).find? k).map part).getD [] =
      if k = id then F (((vs.find? id).map part).getD [])
      else ((vs.find? k).map part).getD [] := by
  rw [getD_find?_modify h]
  by_cases hc : vs.contains id = true
  · simp only [hc, and_true]
  · have hf : vs.find? id = none := by simpa [Vertices.contains] using hc
    by_cases hk : k = id
    · subst hk
      rw [if_neg fun h => hc h.2, if_pos rfl, hf]
      exact hn.symm
    · rw [if_neg fun h => hk h.1, if_neg hk]

end

section

variable (g : Graph) (id k : StateId)

/-- Changing a list of neighbours leaves all states alone. -/
@[simp] theorem state?_mapSuccs (f : List StateId → List StateId) :
    (g.mapSuccs id f).state? k = g.state? k :=
  map_find?_modify g.vertices id k fun _ => rfl

@[simp] theorem state?_mapPreds (f : List StateId → List StateId) :
    (g.mapPreds id f).state? k = g.state? k :=
  map_find?_modify g.vertices id k fun _ => rfl

/-- Changing the state of a vertex changes that state and no other. -/
theorem state?_mapState (f : State → State) :
    (g.mapState id f).state? k = if k = id then (g.state? id).map f else g.state? k := by
  simp only [state?, mapState, Vertices.find?_modify]
  split
  · rw [Option.map_map, Option.map_map]; rfl
  · rfl

/-- Changing the successors of a vertex changes that list and no other, and nothing where there is
no vertex. -/
theorem succIds_mapSuccs (f : List StateId → List StateId) :
    (g.mapSuccs id f).succIds k =
      if k = id ∧ g.hasState id = true then f (g.succIds id) else g.succIds k :=
  getD_find?_modify fun _ => rfl

@[simp] theorem succIds_mapPreds (f : List StateId → List StateId) :
    (g.mapPreds id f).succIds k = g.succIds k := by
  simp only [succIds, mapPreds]
  rw [map_find?_modify]
  exact fun _ => rfl

@[simp] theorem succIds_mapState (f : State → State) :
    (g.mapState id f).succIds k = g.succIds k := by
  simp only [succIds, mapState]
  rw [map_find?_modify]
  exact fun _ => rfl

/-- Changing the predecessors of a vertex changes that list and no other, and nothing where there is
no vertex. -/
theorem predIds_mapPreds (f : List StateId → List StateId) :
    (g.mapPreds id f).predIds k =
      if k = id ∧ g.hasState id = true then f (g.predIds id) else g.predIds k :=
  getD_find?_modify fun _ => rfl

@[simp] theorem predIds_mapSuccs (f : List StateId → List StateId) :
    (g.mapSuccs id f).predIds k = g.predIds k := by
  simp only [predIds, mapSuccs]
  rw [map_find?_modify]
  exact fun _ => rfl

@[simp] theorem predIds_mapState (f : State → State) :
    (g.mapState id f).predIds k = g.predIds k := by
  simp only [predIds, mapState]
  rw [map_find?_modify]
  exact fun _ => rfl

theorem counter_mapSuccs (f : List StateId → List StateId) :
    (g.mapSuccs id f).counter = g.counter := rfl

theorem counter_mapPreds (f : List StateId → List StateId) :
    (g.mapPreds id f).counter = g.counter := rfl

theorem hasState_mapSuccs (g : Graph) (id k : StateId) (f : List StateId → List StateId) :
    (g.mapSuccs id f).hasState k = g.hasState k := by
  rw [Bool.eq_iff_iff, hasState_iff, hasState_iff, state?_mapSuccs]

theorem hasState_mapPreds (g : Graph) (id k : StateId) (f : List StateId → List StateId) :
    (g.mapPreds id f).hasState k = g.hasState k := by
  rw [Bool.eq_iff_iff, hasState_iff, hasState_iff, state?_mapPreds]

/-- Taking an id out of the successors of another is the same whether or not the other is a vertex,
as an id that is none has no successors. -/
theorem succIds_mapSuccs_removeAdjacent (dst : StateId) :
    (g.mapSuccs id (removeAdjacent · dst)).succIds k =
      if k = id then removeAdjacent (g.succIds id) dst else g.succIds k :=
  getD_find?_modify_of_nil (fun _ => rfl) rfl

theorem predIds_mapPreds_removeAdjacent (src : StateId) :
    (g.mapPreds id (removeAdjacent · src)).predIds k =
      if k = id then removeAdjacent (g.predIds id) src else g.predIds k :=
  getD_find?_modify_of_nil (fun _ => rfl) rfl

end

/-! ## Vertices and edges -/

/-- An automaton with a state as a further vertex. -/
def withState (g : Graph) (s : State) : Graph :=
  { g with vertices := g.vertices.insertIfNew s.id { state := s } }

/-- An automaton with another counter. -/
def withCounter (g : Graph) (c : Counter) : Graph := { g with counter := c }

/-- An automaton without the vertex of an id. -/
def without (g : Graph) (id : StateId) : Graph := { g with vertices := g.vertices.erase id }

/-- An automaton with an edge between two of its vertices. -/
def withEdge (g : Graph) (src dst : StateId) : Graph :=
  (g.mapSuccs src (insertAdjacent · dst)).mapPreds dst (insertAdjacent · src)

/-- An automaton without an edge. -/
def withoutEdge (g : Graph) (src dst : StateId) : Graph :=
  (g.mapSuccs src (removeAdjacent · dst)).mapPreds dst (removeAdjacent · src)

/-- An automaton in which some vertices no longer lead to an id. -/
def forgetSuccs (g : Graph) (id : StateId) (ids : List StateId) : Graph :=
  ids.foldl (fun g p => g.mapSuccs p (removeAdjacent · id)) g

/-- An automaton in which an id no longer leads to some vertices. -/
def forgetPreds (g : Graph) (id : StateId) (ids : List StateId) : Graph :=
  ids.foldl (fun g n => g.mapPreds n (removeAdjacent · id)) g

/-- An automaton without a vertex and the edges at it, as far as its own lists name them. -/
def withoutVertex (g : Graph) (v : Vertex) : Graph :=
  ((g.forgetSuccs v.state.id (v.preds.filter (· ≠ v.state.id))).forgetPreds v.state.id
    (v.succs.filter (· ≠ v.state.id))).without v.state.id

section

variable (g : Graph) (k : StateId)

variable {g} in
/-- A state that is stored under a new id is found there, without neighbours, and the other vertices
stay. -/
theorem find?_withState {s : State} (h : g.hasState s.id = false) :
    (g.withState s).vertices.find? k =
      if k = s.id then some { state := s } else g.vertices.find? k :=
  Vertices.find?_insertIfNew (fun hk => by rw [mem_keys_iff.1 hk] at h; cases h) k

variable {g} in
theorem state?_withState {s : State} (h : g.hasState s.id = false) :
    (g.withState s).state? k = if k = s.id then some s else g.state? k := by
  unfold state?
  rw [find?_withState k h]
  split <;> rfl

variable {g} in
/-- A new vertex makes no neighbours. -/
theorem succIds_withState {s : State} (h : g.hasState s.id = false) :
    (g.withState s).succIds k = g.succIds k := by
  rw [succIds, find?_withState k h]
  split
  · rename_i hk
    rw [hk, succIds_of_absent (find?_of_not_hasState h)]
    rfl
  · rfl

variable {g} in
theorem predIds_withState {s : State} (h : g.hasState s.id = false) :
    (g.withState s).predIds k = g.predIds k := by
  rw [predIds, find?_withState k h]
  split
  · rename_i hk
    rw [hk, predIds_of_absent (find?_of_not_hasState h)]
    rfl
  · rfl

/-- A vertex that is erased has no state, and the others keep theirs. -/
theorem state?_without (id : StateId) :
    (g.without id).state? k = if k = id then none else g.state? k := by
  unfold state? without
  rw [Vertices.find?_erase]
  split <;> rfl

theorem succIds_without (id : StateId) :
    (g.without id).succIds k = if k = id then [] else g.succIds k := by
  unfold succIds without
  rw [Vertices.find?_erase]
  split <;> rfl

theorem predIds_without (id : StateId) :
    (g.without id).predIds k = if k = id then [] else g.predIds k := by
  unfold predIds without
  rw [Vertices.find?_erase]
  split <;> rfl

@[simp] theorem state?_withEdge (src dst : StateId) :
    (g.withEdge src dst).state? k = g.state? k := by
  simp [withEdge]

variable {g} in
/-- An edge puts its target at the end of the successors of its source, unless it is there. -/
theorem succIds_withEdge {src : StateId} (h : g.hasState src = true) (dst : StateId) :
    (g.withEdge src dst).succIds k =
      if k = src then insertAdjacent (g.succIds src) dst else g.succIds k := by
  simp [withEdge, succIds_mapSuccs, h]

variable {g} in
/-- An edge puts its source at the end of the predecessors of its target, unless it is there. -/
theorem predIds_withEdge (src : StateId) {dst : StateId} (h : g.hasState dst = true) :
    (g.withEdge src dst).predIds k =
      if k = dst then insertAdjacent (g.predIds dst) src else g.predIds k := by
  simp [withEdge, predIds_mapPreds, hasState_mapSuccs, h]

@[simp] theorem state?_withoutEdge (src dst : StateId) :
    (g.withoutEdge src dst).state? k = g.state? k := by
  simp [withoutEdge]

/-- Without an edge its source no longer lists its target, and the other lists stay. -/
theorem succIds_withoutEdge (src dst : StateId) :
    (g.withoutEdge src dst).succIds k =
      if k = src then removeAdjacent (g.succIds src) dst else g.succIds k := by
  simp [withoutEdge, succIds_mapSuccs_removeAdjacent]

theorem predIds_withoutEdge (src dst : StateId) :
    (g.withoutEdge src dst).predIds k =
      if k = dst then removeAdjacent (g.predIds dst) src else g.predIds k := by
  simp [withoutEdge, predIds_mapPreds_removeAdjacent]

end

/-! ## Removal of the edges at a vertex -/

/-- A fold of which every step leaves something alone leaves it alone. -/
theorem foldl_frame {σ α β : Type} (part : σ → β) {step : σ → α → σ}
    (h : ∀ s a, part (step s a) = part s) (l : List α) (s : σ) : part (l.foldl step s) = part s := by
  induction l generalizing s with
  | nil => rfl
  | cons a l ih => exact (ih (step s a)).trans (h s a)

section

variable (id k : StateId)

theorem state?_forgetSuccs (ids : List StateId) (g : Graph) :
    (g.forgetSuccs id ids).state? k = g.state? k :=
  foldl_frame (state? · k) (fun g p => state?_mapSuccs g p k _) ids g

theorem predIds_forgetSuccs (ids : List StateId) (g : Graph) :
    (g.forgetSuccs id ids).predIds k = g.predIds k :=
  foldl_frame (predIds · k) (fun g p => predIds_mapSuccs g p k _) ids g

/-- Forgetting goes through a list of vertices: those in it lose the id among their successors, and
no other list changes. -/
theorem succIds_forgetSuccs : ∀ (ids : List StateId) (g : Graph),
    (g.forgetSuccs id ids).succIds k =
      if k ∈ ids then removeAdjacent (g.succIds k) id else g.succIds k
  | [], _ => rfl
  | p :: ids, g => by
    change ((g.mapSuccs p _).forgetSuccs id ids).succIds k = _
    rw [succIds_forgetSuccs ids, succIds_mapSuccs_removeAdjacent]
    by_cases hp : k = p
    · subst hp
      simp [removeAdjacent_idem]
    · simp [hp]

theorem state?_forgetPreds (ids : List StateId) (g : Graph) :
    (g.forgetPreds id ids).state? k = g.state? k :=
  foldl_frame (state? · k) (fun g n => state?_mapPreds g n k _) ids g

theorem succIds_forgetPreds (ids : List StateId) (g : Graph) :
    (g.forgetPreds id ids).succIds k = g.succIds k :=
  foldl_frame (succIds · k) (fun g n => succIds_mapPreds g n k _) ids g

/-- The same for predecessors. -/
theorem predIds_forgetPreds : ∀ (ids : List StateId) (g : Graph),
    (g.forgetPreds id ids).predIds k =
      if k ∈ ids then removeAdjacent (g.predIds k) id else g.predIds k
  | [], _ => rfl
  | n :: ids, g => by
    change ((g.mapPreds n _).forgetPreds id ids).predIds k = _
    rw [predIds_forgetPreds ids, predIds_mapPreds_removeAdjacent]
    by_cases hn : k = n
    · subst hn
      simp [removeAdjacent_idem]
    · simp [hn]

theorem counter_forgetSuccs (ids : List StateId) (g : Graph) :
    (g.forgetSuccs id ids).counter = g.counter :=
  foldl_frame Graph.counter (fun g p => counter_mapSuccs g p _) ids g

theorem counter_forgetPreds (ids : List StateId) (g : Graph) :
    (g.forgetPreds id ids).counter = g.counter :=
  foldl_frame Graph.counter (fun g n => counter_mapPreds g n _) ids g

variable (g : Graph) (v : Vertex)

theorem counter_withoutVertex : (g.withoutVertex v).counter = g.counter := by
  rw [withoutVertex]
  exact (counter_forgetPreds _ _ _).trans (counter_forgetSuccs _ _ _)

/-- Removal takes away the state of the vertex and no other. -/
theorem state?_withoutVertex :
    (g.withoutVertex v).state? k = if k = v.state.id then none else g.state? k := by
  rw [withoutVertex, state?_without, state?_forgetPreds, state?_forgetSuccs]

/-- After a removal the vertex has no successors, and those that it lists as its predecessors no
longer lead to it. -/
theorem succIds_withoutVertex :
    (g.withoutVertex v).succIds k =
      if k = v.state.id then []
      else if k ∈ v.preds then removeAdjacent (g.succIds k) v.state.id else g.succIds k := by
  rw [withoutVertex, succIds_without, succIds_forgetPreds, succIds_forgetSuccs]
  by_cases hk : k = v.state.id <;> simp [hk]

/-- After a removal the vertex has no predecessors, and it no longer leads to those that it lists as
its successors. -/
theorem predIds_withoutVertex :
    (g.withoutVertex v).predIds k =
      if k = v.state.id then []
      else if k ∈ v.succs then removeAdjacent (g.predIds k) v.state.id else g.predIds k := by
  rw [withoutVertex, predIds_without, predIds_forgetPreds, predIds_forgetSuccs]
  by_cases hk : k = v.state.id <;> simp [hk]

theorem hasState_forgetSuccs (ids : List StateId) (g : Graph) :
    (g.forgetSuccs id ids).hasState k = g.hasState k := by
  rw [Bool.eq_iff_iff, hasState_iff, hasState_iff, state?_forgetSuccs]

end

end FlowAutomaton.Graph
