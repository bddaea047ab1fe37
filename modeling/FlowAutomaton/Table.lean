/-
Finite maps kept in key order. The entries of a table are sorted by strictly increasing key, so a
table is printed and stored in one way only. Keys are told apart by their order alone: where two
different keys compare equal, the key that came first stays.
-/

namespace FlowAutomaton

/-- A finite map as the list of its entries by increasing key. -/
structure Table (κ υ : Type) [Ord κ] where
  entries : List (κ × υ)
  sorted : entries.Pairwise fun a b => compare a.1 b.1 = .lt
  deriving DecidableEq

namespace Table

variable {κ υ : Type} [Ord κ]

/-- The table without entries. -/
def empty : Table κ υ := ⟨[], .nil⟩

instance : EmptyCollection (Table κ υ) := ⟨empty⟩

instance : Inhabited (Table κ υ) := ⟨empty⟩

/-- The number of entries. -/
def size (t : Table κ υ) : Nat := t.entries.length

/-- The keys, in order. -/
def keys (t : Table κ υ) : List κ := t.entries.map Prod.fst

/-- The value under a key. -/
def find? (t : Table κ υ) (k : κ) : Option υ :=
  (t.entries.find? fun e => compare k e.1 == .eq).map Prod.snd

/-- Whether a key is present. -/
def contains (t : Table κ υ) (k : κ) : Bool := (t.find? k).isSome

/-! ## Insertion -/

/-- Entries with `f old` under `k`, where `old` is the value that was there. -/
def alterEntries (k : κ) (f : Option υ → υ) : List (κ × υ) → List (κ × υ)
  | [] => [(k, f none)]
  | (k', v') :: rest =>
    match compare k k' with
    | .lt => (k, f none) :: (k', v') :: rest
    | .eq => (k', f (some v')) :: rest
    | .gt => (k', v') :: alterEntries k f rest

theorem key_of_mem_alterEntries {k : κ} {f : Option υ → υ} {l : List (κ × υ)} {e : κ × υ}
    (h : e ∈ alterEntries k f l) : e.1 = k ∨ ∃ e' ∈ l, e'.1 = e.1 := by
  induction l with
  | nil => simp_all [alterEntries]
  | cons a l ih =>
    unfold alterEntries at h
    split at h <;> simp only [List.mem_cons] at h ⊢
    · rcases h with rfl | h
      · exact .inl rfl
      · exact .inr ⟨e, h, rfl⟩
    · rcases h with rfl | h
      · exact .inr ⟨a, .inl rfl, rfl⟩
      · exact .inr ⟨e, .inr h, rfl⟩
    · rcases h with rfl | h
      · exact .inr ⟨a, .inl rfl, rfl⟩
      · rcases ih h with h | ⟨e', he', h⟩
        · exact .inl h
        · exact .inr ⟨e', .inr he', h⟩

/-- Altering keeps the entries sorted. -/
theorem sorted_alterEntries [Std.TransOrd κ] {k : κ} {f : Option υ → υ} {l : List (κ × υ)}
    (h : l.Pairwise fun a b => compare a.1 b.1 = .lt) :
    (alterEntries k f l).Pairwise fun a b => compare a.1 b.1 = .lt := by
  induction l with
  | nil => simp [alterEntries]
  | cons a l ih =>
    have ⟨ha, hl⟩ := List.pairwise_cons.mp h
    unfold alterEntries
    split
    next hk =>
      refine List.pairwise_cons.mpr ⟨fun e he => ?_, h⟩
      rcases List.mem_cons.mp he with rfl | he
      · exact hk
      · exact Std.TransCmp.lt_trans hk (ha e he)
    next => exact List.pairwise_cons.mpr ⟨ha, hl⟩
    next hk =>
      refine List.pairwise_cons.mpr ⟨fun e he => ?_, ih hl⟩
      rcases key_of_mem_alterEntries he with he | ⟨e', he', he⟩
      · exact he ▸ Std.OrientedCmp.lt_of_gt hk
      · exact he ▸ ha e' he'

/-- The table with `f old` under `k`, where `old` is the value that was there. -/
def alter [Std.TransOrd κ] (t : Table κ υ) (k : κ) (f : Option υ → υ) : Table κ υ :=
  ⟨alterEntries k f t.entries, sorted_alterEntries t.sorted⟩

/-- Puts a value under a key, in place of the one that was there. -/
def insert [Std.TransOrd κ] (t : Table κ υ) (k : κ) (v : υ) : Table κ υ := t.alter k fun _ => v

/-- Puts a value under a key unless there is one. -/
def insertIfNew [Std.TransOrd κ] (t : Table κ υ) (k : κ) (v : υ) : Table κ υ :=
  t.alter k (·.getD v)

/-! ## Look-up -/

theorem find?_empty (k : κ) : (empty : Table κ υ).find? k = none := rfl

/-- The value under a key in sorted entries. -/
def valueIn? (k : κ) (l : List (κ × υ)) : Option υ :=
  (l.find? fun e => compare k e.1 == .eq).map Prod.snd

theorem valueIn?_nil (k : κ) : valueIn? k ([] : List (κ × υ)) = none := rfl

theorem valueIn?_cons (k : κ) (a : κ × υ) (l : List (κ × υ)) :
    valueIn? k (a :: l) = if compare k a.1 = .eq then some a.2 else valueIn? k l := by
  unfold valueIn?
  rw [List.find?_cons]
  by_cases h : compare k a.1 = .eq
  · simp [h]
  · rw [if_neg h, beq_eq_false_iff_ne.mpr h]

theorem valueIn?_eq_none [Std.TransOrd κ] {k : κ} {a : κ × υ} {l : List (κ × υ)}
    (hk : compare k a.1 = .lt) (h : (a :: l).Pairwise fun a b => compare a.1 b.1 = .lt) :
    valueIn? k (a :: l) = none := by
  have ⟨ha, _⟩ := List.pairwise_cons.mp h
  unfold valueIn?
  rw [Option.map_eq_none_iff, List.find?_eq_none]
  intro e he
  rcases List.mem_cons.mp he with rfl | he
  · simp [hk]
  · simp [Std.TransCmp.lt_trans hk (ha e he)]

theorem valueIn?_alterEntries_self [Std.TransOrd κ] {k : κ} {f : Option υ → υ}
    {l : List (κ × υ)} (h : l.Pairwise fun a b => compare a.1 b.1 = .lt) :
    valueIn? k (alterEntries k f l) = some (f (valueIn? k l)) := by
  induction l with
  | nil => simp [alterEntries, valueIn?_cons, valueIn?_nil, Std.ReflCmp.compare_self]
  | cons a l ih =>
    unfold alterEntries
    split
    next hk =>
      rw [valueIn?_cons, if_pos Std.ReflCmp.compare_self, valueIn?_eq_none hk h]
    next hk => rw [valueIn?_cons, valueIn?_cons, if_pos hk, if_pos hk]
    next hk =>
      have hk : ¬compare k a.1 = .eq := by simp [hk]
      rw [valueIn?_cons, valueIn?_cons, if_neg hk, if_neg hk]
      exact ih (List.pairwise_cons.mp h).2

theorem valueIn?_alterEntries_of_ne [Std.TransOrd κ] {k k' : κ} {f : Option υ → υ}
    {l : List (κ × υ)} (hne : compare k' k ≠ .eq) :
    valueIn? k' (alterEntries k f l) = valueIn? k' l := by
  induction l with
  | nil => simp [alterEntries, valueIn?_cons, hne]
  | cons a l ih =>
    unfold alterEntries
    split
    next => rw [valueIn?_cons, if_neg hne]
    next hk =>
      have ha : ¬compare k' a.1 = .eq := fun h =>
        hne (Std.TransCmp.eq_trans h (Std.OrientedCmp.eq_symm hk))
      rw [valueIn?_cons, valueIn?_cons, if_neg ha, if_neg ha]
    next => rw [valueIn?_cons, valueIn?_cons, ih]

/-- Altering changes what is under its key and nothing else. -/
theorem find?_alter_self [Std.TransOrd κ] (t : Table κ υ) (k : κ) (f : Option υ → υ) :
    (t.alter k f).find? k = some (f (t.find? k)) :=
  valueIn?_alterEntries_self t.sorted

theorem find?_alter_of_ne [Std.TransOrd κ] (t : Table κ υ) {k k' : κ} (f : Option υ → υ)
    (h : compare k' k ≠ .eq) : (t.alter k f).find? k' = t.find? k' :=
  valueIn?_alterEntries_of_ne h

/-- What is put under a key is found there, and the other keys keep theirs. -/
theorem find?_insert_self [Std.TransOrd κ] (t : Table κ υ) (k : κ) (v : υ) :
    (t.insert k v).find? k = some v := t.find?_alter_self k _

theorem find?_insert_of_ne [Std.TransOrd κ] (t : Table κ υ) {k k' : κ} (v : υ)
    (h : compare k' k ≠ .eq) : (t.insert k v).find? k' = t.find? k' :=
  t.find?_alter_of_ne _ h

end Table

end FlowAutomaton
