/-
The lists that describe an automaton as a whole. The vertices, the edges and the vertices without
successors come in strictly increasing order, so what is in such a list decides the list, and the
order in which vertices are stored does not show. The same holds of the latest state at an address.
-/
import FlowAutomaton.Proofs.Graph.Digraph
import Mathlib.Algebra.Ring.Nat
import Mathlib.Data.List.Sort

namespace FlowAutomaton.Graph

/-! ## Sorted lists -/

/-- Edges by source and then by target. -/
def EdgeLT (a b : StateId × StateId) : Prop := a.1 < b.1 ∨ a.1 = b.1 ∧ a.2 < b.2

/-- States by id. -/
def IdLT (s t : State) : Prop := s.id < t.id

instance : Std.Irrefl EdgeLT where
  irrefl a h := by
    simp only [EdgeLT, UInt64.lt_iff_toNat_lt] at h
    omega

instance : Std.Antisymm EdgeLT where
  antisymm a b h h' := by
    simp only [EdgeLT, UInt64.lt_iff_toNat_lt, ← UInt64.toNat_inj] at h h'
    omega

instance : Std.Irrefl IdLT where
  irrefl s h := UInt64.lt_irrefl s.id h

instance : Std.Antisymm IdLT where
  antisymm _ _ h h' := absurd h' (UInt64.lt_asymm h)

/-- A sorted list without repetitions is strictly sorted. -/
theorem pairwise_mergeSort_strict {α : Type} {le : α → α → Bool} {lt : α → α → Prop}
    {l : List α} (trans : ∀ a b c, le a b → le b c → le a c) (total : ∀ a b, le a b || le b a)
    (strict : ∀ a ∈ l, ∀ b ∈ l, le a b → a ≠ b → lt a b) (nodup : l.Nodup) :
    (l.mergeSort le).Pairwise lt := by
  have sorted := List.pairwise_mergeSort trans total l
  have distinct : (l.mergeSort le).Nodup := (List.mergeSort_perm l le).nodup_iff.2 nodup
  refine (sorted.and distinct).imp_of_mem fun ha hb h => ?_
  exact strict _ (List.mem_mergeSort.1 ha) _ (List.mem_mergeSort.1 hb) h.1 h.2

variable (g : Graph)

/-! ## Vertices -/

/-- The ids are those of the vertices. -/
theorem mem_ids {id : StateId} : id ∈ g.ids ↔ g.hasState id = true := by
  rw [ids, List.mem_mergeSort, mem_keys_iff]

/-- Ids come in increasing order, each once. -/
theorem ids_sorted : g.ids.Pairwise (· < ·) := by
  refine pairwise_mergeSort_strict ?_ ?_ ?_ g.vertices.nodup
  · intro a b c h h'
    simp only [decide_eq_true_eq] at h h' ⊢
    exact UInt64.le_trans h h'
  · intro a b
    simp only [Bool.or_eq_true, decide_eq_true_eq]
    exact UInt64.le_total a b
  · intro a _ b _ h hn
    simp only [decide_eq_true_eq] at h
    exact UInt64.lt_of_le_of_ne h hn

/-- The last of the ids is the greatest one. -/
theorem le_of_getLast?_ids {greatest id : StateId} (hg : g.ids.getLast? = some greatest)
    (hi : g.hasState id = true) : id ≤ greatest := by
  obtain ⟨pre, hpre⟩ := List.getLast?_eq_some_iff.1 hg
  have hs := g.ids_sorted
  have hm := g.mem_ids.2 hi
  rw [hpre] at hs hm
  rcases List.mem_append.1 hm with hm | hm
  · exact UInt64.le_of_lt ((List.pairwise_append.1 hs).2.2 id hm greatest (List.mem_singleton_self _))
  · rw [List.mem_singleton.1 hm]
    exact UInt64.le_refl greatest

theorem length_ids : g.ids.length = g.size := by
  rw [ids, List.length_mergeSort, Vertices.keys, List.length_map]
  rfl

/-! ## Edges -/

/-- The pairs of an id and a member of a list that is kept at its vertex, as they are stored. -/
def listed (part : Vertex → List StateId) : List (StateId × StateId) :=
  g.vertices.entries.flatMap fun e => (part e.2).map (e.1, ·)

section

variable (part : Vertex → List StateId)

theorem mem_listed {a b : StateId} :
    (a, b) ∈ g.listed part ↔ b ∈ ((g.vertices.find? a).map part).getD [] := by
  rw [listed, List.mem_flatMap]
  constructor
  · rintro ⟨⟨id, v⟩, hv, he⟩
    obtain ⟨w, hw, he⟩ := List.mem_map.1 he
    cases he
    rw [Vertices.find?_eq_some_iff.2 hv]
    exact hw
  · intro h
    cases hv : g.vertices.find? a with
    | none =>
      rw [hv] at h
      cases h
    | some v =>
      rw [hv] at h
      exact ⟨(a, v), Vertices.find?_eq_some_iff.1 hv, List.mem_map.2 ⟨b, h, rfl⟩⟩

/-- Lists without repetitions make a list of pairs without repetitions, as no id has two
vertices. -/
theorem nodup_listed (h : ∀ id, (((g.vertices.find? id).map part).getD []).Nodup) :
    (g.listed part).Nodup := by
  refine List.nodup_flatMap.2 ⟨fun e he => ?_, ?_⟩
  · have hs := h e.1
    rw [Vertices.find?_eq_some_iff.2 he] at hs
    exact hs.map fun _ _ hab => congrArg Prod.snd hab
  · refine (List.pairwise_map.1 g.vertices.nodup).imp fun hne => ?_
    intro e ha hb
    obtain ⟨_, -, rfl⟩ := List.mem_map.1 ha
    obtain ⟨_, -, he⟩ := List.mem_map.1 hb
    exact hne (congrArg Prod.fst he).symm

theorem length_listed :
    (g.listed part).length = (g.vertices.entries.map fun e => (part e.2).length).sum := by
  rw [listed, List.length_flatMap]
  simp only [List.length_map]

end

/-- The edges are those that their sources list. -/
theorem mem_edges {src dst : StateId} : (src, dst) ∈ g.edges ↔ dst ∈ g.succIds src := by
  rw [edges, List.mem_mergeSort]
  exact g.mem_listed Vertex.succs

theorem edgeLE_trans (a b c : StateId × StateId) (h : edgeLE a b) (h' : edgeLE b c) :
    edgeLE a c := by
  simp only [edgeLE, Bool.or_eq_true, Bool.and_eq_true, decide_eq_true_eq, beq_iff_eq,
    UInt64.lt_iff_toNat_lt, UInt64.le_iff_toNat_le, ← UInt64.toNat_inj] at *
  omega

theorem edgeLE_total (a b : StateId × StateId) : edgeLE a b || edgeLE b a := by
  simp only [edgeLE, Bool.or_eq_true, Bool.and_eq_true, decide_eq_true_eq, beq_iff_eq,
    UInt64.lt_iff_toNat_lt, UInt64.le_iff_toNat_le, ← UInt64.toNat_inj]
  omega

variable {g} in
/-- Edges come by source and then by target, each once. -/
theorem edges_sorted (h : g.WF) : g.edges.Pairwise EdgeLT := by
  refine pairwise_mergeSort_strict edgeLE_trans edgeLE_total ?_
    (g.nodup_listed Vertex.succs h.succs_nodup)
  intro a _ b _ hab hn
  simp only [edgeLE, Bool.or_eq_true, Bool.and_eq_true, decide_eq_true_eq, beq_iff_eq] at hab
  rcases hab with hab | ⟨he, hab⟩
  · exact .inl hab
  · exact .inr ⟨he, UInt64.lt_of_le_of_ne hab fun hs => hn (Prod.ext he hs)⟩

theorem numEdges_eq_sum :
    g.numEdges = (g.vertices.entries.map fun e => e.2.succs.length).sum := by
  have count : ∀ (l : List (StateId × Vertex)) (n : Nat),
      l.foldl (fun n e => n + e.2.succs.length) n = n + (l.map fun e => e.2.succs.length).sum := by
    intro l
    induction l with
    | nil => exact fun _ => rfl
    | cons e l ih =>
      intro n
      rw [List.foldl_cons, ih, List.map_cons, List.sum_cons]
      omega
  rw [numEdges, count, Nat.zero_add]

/-- There are as many edges as are counted. -/
theorem length_edges : g.edges.length = g.numEdges := by
  rw [edges, List.length_mergeSort, numEdges_eq_sum]
  exact g.length_listed Vertex.succs

/-! ## States without successors -/

theorem mem_states {s : State} :
    s ∈ g.vertices.entries.map (fun e => e.2.state) ↔ ∃ id, g.state? id = some s := by
  constructor
  · intro h
    obtain ⟨e, he, rfl⟩ := List.mem_map.1 h
    exact ⟨e.1, state?_of_find (Vertices.find?_eq_some_iff.2 he)⟩
  · rintro ⟨id, hs⟩
    exact List.mem_map.2 ⟨_, Vertices.find?_eq_some_iff.1 (find?_of_state hs), rfl⟩

/-- The sinks are the states of the vertices that lead nowhere. -/
theorem mem_sinks {s : State} :
    s ∈ g.sinks ↔ ∃ id, g.state? id = some s ∧ g.succIds id = [] := by
  rw [sinks, List.mem_mergeSort, List.mem_map]
  constructor
  · rintro ⟨e, he, rfl⟩
    obtain ⟨he, hs⟩ := List.mem_filter.1 he
    have hv := Vertices.find?_eq_some_iff.2 he
    exact ⟨e.1, state?_of_find hv, by rw [succIds_of_find hv]; exact List.isEmpty_iff.1 hs⟩
  · rintro ⟨id, hs, he⟩
    have hv := Vertices.find?_eq_some_iff.1 (find?_of_state hs)
    exact ⟨_, List.mem_filter.2 ⟨hv, List.isEmpty_iff.2 he⟩, rfl⟩

variable {g} in
/-- The id of a state decides the state. -/
theorem WF.eq_of_id {a b : StateId} {s t : State} (h : g.WF) (hs : g.state? a = some s)
    (ht : g.state? b = some t) (he : s.id = t.id) : s = t := by
  have hab : a = b := (h.id_eq a s hs).symm.trans (he.trans (h.id_eq b t ht))
  subst hab
  exact Option.some.inj (hs.symm.trans ht)

variable {g} in
theorem nodup_states (h : g.WF) : (g.vertices.entries.map fun e => e.2.state).Nodup := by
  refine List.Nodup.map_on ?_ g.vertices.nodup.of_map
  rintro ⟨a, v⟩ hv ⟨b, w⟩ hw he
  have hv := Vertices.find?_eq_some_iff.2 hv
  have hw := Vertices.find?_eq_some_iff.2 hw
  have hab : a = b := (h.id_eq a _ (state?_of_find hv)).symm.trans
    ((congrArg State.id he).trans (h.id_eq b _ (state?_of_find hw)))
  subst hab
  rw [Option.some.inj (hv.symm.trans hw)]

/-- States by id. -/
def byId (l : List State) : List State := l.mergeSort (·.id ≤ ·.id)

theorem mem_byId {l : List State} {s : State} : s ∈ byId l ↔ s ∈ l := List.mem_mergeSort

theorem byId_sorted {l : List State} (hn : l.Nodup)
    (hid : ∀ s ∈ l, ∀ t ∈ l, s.id = t.id → s = t) : (byId l).Pairwise IdLT := by
  refine pairwise_mergeSort_strict ?_ ?_ ?_ hn
  · intro a b c hab hbc
    simp only [decide_eq_true_eq] at hab hbc ⊢
    exact UInt64.le_trans hab hbc
  · intro a b
    simp only [Bool.or_eq_true, decide_eq_true_eq]
    exact UInt64.le_total a.id b.id
  · intro a ha b hb hab hne
    simp only [decide_eq_true_eq] at hab
    exact UInt64.lt_of_le_of_ne hab fun he => hne (hid a ha b hb he)

variable {g} in
theorem sinks_sorted (h : g.WF) : g.sinks.Pairwise IdLT := by
  refine byId_sorted ((nodup_states h).sublist (List.filter_sublist.map _)) fun a ha b hb he => ?_
  obtain ⟨_, ha⟩ := (mem_states g).1 ((List.filter_sublist.map _).subset ha)
  obtain ⟨_, hb⟩ := (mem_states g).1 ((List.filter_sublist.map _).subset hb)
  exact h.eq_of_id ha hb he

/-! ## The latest state at an address -/

/-- The state that a search for the greatest id has found is one of those it has seen, and none of
them has a greater id. -/
theorem foldl_later {l : List State} {found : Option State} {s : State}
    (h : l.foldl later found = some s) :
    (s ∈ l ∨ found = some s) ∧ (∀ t ∈ l, t.id ≤ s.id) ∧ ∀ t ∈ found, t.id ≤ s.id := by
  induction l generalizing found with
  | nil =>
    refine ⟨.inr h, by simp, fun t ht => ?_⟩
    rw [List.foldl_nil] at h
    rw [Option.some.inj (ht.symm.trans h)]
    exact UInt64.le_refl s.id
  | cons a l ih =>
    obtain ⟨hs, hl, hf⟩ := ih h
    cases found with
    | none =>
      refine ⟨?_, ?_, by simp⟩
      · rcases hs with hs | hs
        · exact .inl (List.mem_cons_of_mem a hs)
        · cases hs
          exact .inl List.mem_cons_self
      · intro t ht
        rcases List.mem_cons.1 ht with rfl | ht
        exacts [hf _ rfl, hl t ht]
    | some b =>
      simp only [later] at hs hf
      -- the one of the two that is dropped is not above the one that is kept
      split at hs
      · rename_i hlt
        rw [if_pos hlt] at hf
        have ha : a.id ≤ s.id := hf a rfl
        refine ⟨?_, ?_, ?_⟩
        · rcases hs with hs | hs
          · exact .inl (List.mem_cons_of_mem a hs)
          · cases hs
            exact .inl List.mem_cons_self
        · intro t ht
          rcases List.mem_cons.1 ht with rfl | ht
          exacts [ha, hl t ht]
        · rintro t ⟨⟩
          exact UInt64.le_trans (UInt64.le_of_lt hlt) ha
      · rename_i hlt
        rw [if_neg hlt] at hf
        have hb : b.id ≤ s.id := hf b rfl
        refine ⟨hs.imp_left (List.mem_cons_of_mem a), ?_, ?_⟩
        · intro t ht
          rcases List.mem_cons.1 ht with rfl | ht
          exacts [UInt64.le_trans (UInt64.not_lt.1 hlt) hb, hl t ht]
        · rintro t ⟨⟩
          exact hb

theorem foldl_later_eq_none {l : List State} {found : Option State}
    (h : l.foldl later found = none) : l = [] := by
  induction l generalizing found with
  | nil => rfl
  | cons a l ih =>
    have hl := ih h
    subst hl
    cases found with
    | none => cases h
    | some b =>
      simp only [List.foldl_cons, List.foldl_nil, later] at h
      split at h <;> cases h

/-- Whether a state is that of a vertex at an address. -/
def StandsAt (ip : Address) (s : State) : Prop := (∃ id, g.state? id = some s) ∧ s.ip.same ip = true

theorem mem_statesAt {ip : Address} {s : State} :
    s ∈ (g.vertices.entries.map fun e => e.2.state).filter (·.ip.same ip) ↔ g.StandsAt ip s := by
  rw [List.mem_filter, mem_states]
  rfl

theorem latestAt_eq_none_iff {ip : Address} :
    g.latestAt ip = none ↔ ∀ s, ¬g.StandsAt ip s := by
  constructor
  · intro h s hs
    rw [← mem_statesAt, foldl_later_eq_none h] at hs
    cases hs
  · intro h
    have hl : (g.vertices.entries.map fun e => e.2.state).filter (·.ip.same ip) = [] :=
      List.eq_nil_iff_forall_not_mem.2 fun s hs => h s ((mem_statesAt g).1 hs)
    rw [latestAt, hl]
    rfl

variable {g} in
/-- The latest state at an address stands there, and none that stands there has a greater id. -/
theorem latestAt_eq_some_iff (h : g.WF) {ip : Address} {s : State} :
    g.latestAt ip = some s ↔ g.StandsAt ip s ∧ ∀ t, g.StandsAt ip t → t.id ≤ s.id := by
  have found {t : State} (ht : g.latestAt ip = some t) :
      g.StandsAt ip t ∧ ∀ u, g.StandsAt ip u → u.id ≤ t.id := by
    obtain ⟨hm, hl, -⟩ := foldl_later ht
    rcases hm with hm | hm
    · exact ⟨(mem_statesAt g).1 hm, fun u hu => hl u ((mem_statesAt g).2 hu)⟩
    · cases hm
  constructor
  · exact found
  · rintro ⟨hs, hl⟩
    cases ht : g.latestAt ip with
    | none => exact absurd hs ((latestAt_eq_none_iff g).1 ht s)
    | some t =>
      obtain ⟨hst, hlt⟩ := found ht
      have he : t.id = s.id := UInt64.le_antisymm (hl t hst) (hlt s hs)
      obtain ⟨⟨_, hs⟩, -⟩ := hs
      obtain ⟨⟨_, ht'⟩, -⟩ := hst
      rw [h.eq_of_id ht' hs he]

end FlowAutomaton.Graph
