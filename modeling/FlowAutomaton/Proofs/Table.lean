/-
Tables by their look-ups and by their entries. The value under a key is that of the one entry with
the key, so tables in which every key has the same value are the same table. A table is made again
from its entries: putting them one after the other into the empty table, in their order, gives the
table back.
-/
import FlowAutomaton.Table

namespace FlowAutomaton.Table

variable {κ υ : Type} [Ord κ]

/-- The entries of a table decide the table. -/
theorem eq_of_entries : ∀ {t u : Table κ υ}, t.entries = u.entries → t = u
  | ⟨_, _⟩, ⟨_, _⟩, rfl => rfl

theorem valueIn?_append (k : κ) (l m : List (κ × υ)) :
    valueIn? k (l ++ m) = (valueIn? k l).or (valueIn? k m) := by
  induction l with
  | nil => rfl
  | cons a l ih =>
    rw [List.cons_append, valueIn?_cons, valueIn?_cons, ih]
    split
    · rfl
    · rfl

/-- Entries with a value under a key: those that were there, and one with that value. -/
theorem mem_alterEntries {k : κ} {f : Option υ → υ} {l : List (κ × υ)} {e : κ × υ}
    (h : e ∈ alterEntries k f l) :
    e ∈ l ∨ e = (k, f none) ∨ ∃ v, (e.1, v) ∈ l ∧ compare k e.1 = .eq ∧ e.2 = f (some v) := by
  induction l with
  | nil => exact .inr (.inl (List.mem_singleton.1 h))
  | cons a l ih =>
    unfold alterEntries at h
    split at h
    · rcases List.mem_cons.1 h with rfl | h
      · exact .inr (.inl rfl)
      · exact .inl h
    · rename_i hk
      rcases List.mem_cons.1 h with rfl | h
      · exact .inr (.inr ⟨a.2, List.mem_cons_self, hk, rfl⟩)
      · exact .inl (List.mem_cons_of_mem a h)
    · rcases List.mem_cons.1 h with rfl | h
      · exact .inl List.mem_cons_self
      · rcases ih h with h | h | ⟨v, hm, hv⟩
        · exact .inl (List.mem_cons_of_mem a h)
        · exact .inr (.inl h)
        · exact .inr (.inr ⟨v, List.mem_cons_of_mem a hm, hv⟩)

variable [Std.TransOrd κ]

/-! ## Entries of keys -/

/-- The value under a key is that of an entry with an equal key. -/
theorem valueIn?_eq_some_iff {k : κ} {v : υ} {l : List (κ × υ)}
    (h : l.Pairwise fun a b => compare a.1 b.1 = .lt) :
    valueIn? k l = some v ↔ ∃ k', compare k k' = .eq ∧ (k', v) ∈ l := by
  induction l with
  | nil => simp [valueIn?_nil]
  | cons a l ih =>
    obtain ⟨ha, hl⟩ := List.pairwise_cons.1 h
    rw [valueIn?_cons]
    split
    · rename_i hk
      constructor
      · rintro ⟨⟩
        exact ⟨a.1, hk, List.mem_cons_self⟩
      · rintro ⟨k', hk', hm⟩
        rcases List.mem_cons.1 hm with rfl | hm
        · rfl
        · -- the key of a later entry is greater than the one that was found
          have hlt : compare k k' = .lt := Std.TransCmp.lt_of_eq_of_lt hk (ha _ hm)
          rw [hk'] at hlt
          cases hlt
    · rename_i hk
      rw [ih hl]
      constructor
      · rintro ⟨k', hk', hm⟩
        exact ⟨k', hk', List.mem_cons_of_mem a hm⟩
      · rintro ⟨k', hk', hm⟩
        rcases List.mem_cons.1 hm with rfl | hm
        · exact absurd hk' hk
        · exact ⟨k', hk', hm⟩

/-- The entries after a value was put under a key. -/
theorem mem_entries_insert {t : Table κ υ} {k : κ} {v : υ} {e : κ × υ}
    (h : e ∈ (t.insert k v).entries) :
    e ∈ t.entries ∨ e = (k, v) ∨ ((∃ old, (e.1, old) ∈ t.entries) ∧ compare k e.1 = .eq ∧ e.2 = v) := by
  rcases mem_alterEntries h with h | h | ⟨old, hm, hk, he⟩
  · exact .inl h
  · exact .inr (.inl h)
  · exact .inr (.inr ⟨⟨old, hm⟩, hk, he⟩)

theorem nodup_keys (t : Table κ υ) : t.keys.Nodup := by
  refine List.pairwise_map.2 (t.sorted.imp fun {a b} hab he => ?_)
  have hlt : compare b.1 b.1 = .lt := he ▸ hab
  rw [Std.ReflOrd.compare_self] at hlt
  cases hlt

theorem nodup_entries (t : Table κ υ) : t.entries.Nodup := by
  refine List.Pairwise.of_map Prod.fst (fun _ _ hne he => ?_) t.nodup_keys
  exact hne (congrArg Prod.fst he)

/-- Tables with the same entries in some order are the same. -/
theorem eq_of_mem {t u : Table κ υ} (h : ∀ e, e ∈ t.entries ↔ e ∈ u.entries) : t = u := by
  have perm : t.entries.Perm u.entries :=
    (List.perm_ext_iff_of_nodup t.nodup_entries u.nodup_entries).2 h
  refine eq_of_entries (perm.eq_of_pairwise (fun a b _ _ hab hba => ?_) t.sorted u.sorted)
  rw [Std.OrientedCmp.gt_of_lt hab] at hba
  cases hba

section

variable [Std.LawfulEqOrd κ] {t u : Table κ υ} {k : κ}

theorem mem_entries_iff {v : υ} : (k, v) ∈ t.entries ↔ t.find? k = some v := by
  change _ ↔ valueIn? k t.entries = some v
  rw [valueIn?_eq_some_iff t.sorted]
  constructor
  · intro hm
    exact ⟨k, Std.ReflCmp.compare_self, hm⟩
  · rintro ⟨k', hk, hm⟩
    rwa [Std.LawfulEqCmp.eq_of_compare hk]

theorem mem_keys_iff : k ∈ t.keys ↔ ∃ v, t.find? k = some v := by
  simp only [← mem_entries_iff, keys, List.mem_map]
  constructor
  · rintro ⟨⟨k', v⟩, hm, rfl⟩
    exact ⟨v, hm⟩
  · rintro ⟨v, hm⟩
    exact ⟨(k, v), hm, rfl⟩

theorem find?_alter [DecidableEq κ] (t : Table κ υ) (k k' : κ) (f : Option υ → υ) :
    (t.alter k f).find? k' = if k' = k then some (f (t.find? k)) else t.find? k' := by
  split
  · rename_i hk
    rw [hk, find?_alter_self]
  · rename_i hk
    exact find?_alter_of_ne t f fun h => hk (Std.LawfulEqCmp.eq_of_compare h)

theorem find?_insert [DecidableEq κ] (t : Table κ υ) (k k' : κ) (v : υ) :
    (t.insert k v).find? k' = if k' = k then some v else t.find? k' :=
  t.find?_alter k k' _

theorem mem_keys_alter (t : Table κ υ) (k k' : κ) (f : Option υ → υ) :
    k' ∈ (t.alter k f).keys ↔ k' ∈ t.keys ∨ k = k' := by
  classical
  simp only [mem_keys_iff, find?_alter]
  by_cases hk : k' = k
  · simp [hk]
  · simp [hk, Ne.symm hk]

/-- Tables are the same if every key has the same value in both. -/
theorem eq_of_find? (h : ∀ k, t.find? k = u.find? k) : t = u :=
  eq_of_mem fun e => by rw [mem_entries_iff, mem_entries_iff, h]

end

/-! ## Tables from entries -/

/-- A key after all others goes to the end. -/
theorem alterEntries_of_lt {k : κ} (f : Option υ → υ) {l : List (κ × υ)}
    (h : ∀ e ∈ l, compare e.1 k = .lt) : alterEntries k f l = l ++ [(k, f none)] := by
  induction l with
  | nil => rfl
  | cons e l ih =>
    obtain ⟨he, hl⟩ := List.forall_mem_cons.1 h
    have hgt : compare k e.1 = .gt := Std.OrientedCmp.gt_of_lt he
    rw [alterEntries, hgt, ih hl]
    rfl

/-- Entries after all others are put at the end one by one. -/
theorem entries_foldl_alter {f : υ → Option υ → υ} (hf : ∀ v, f v none = v) (l : List (κ × υ))
    (t : Table κ υ) (h : (t.entries ++ l).Pairwise fun a b => compare a.1 b.1 = .lt) :
    (l.foldl (fun t e => t.alter e.1 (f e.2)) t).entries = t.entries ++ l := by
  induction l generalizing t with
  | nil => exact (List.append_nil t.entries).symm
  | cons e l ih =>
    have hlt : ∀ a ∈ t.entries, compare a.1 e.1 = .lt := fun a ha =>
      (List.pairwise_append.1 h).2.2 a ha e List.mem_cons_self
    have he : (t.alter e.1 (f e.2)).entries = t.entries ++ [e] :=
      (alterEntries_of_lt (f e.2) hlt).trans (by rw [hf])
    have hl : t.entries ++ e :: l = (t.alter e.1 (f e.2)).entries ++ l := by
      rw [he, List.append_assoc, List.singleton_append]
    rw [List.foldl_cons, ih _ (hl ▸ h), hl]

theorem foldl_insertIfNew_entries (t : Table κ υ) :
    t.entries.foldl (fun t e => t.insertIfNew e.1 e.2) {} = t :=
  eq_of_entries
    (entries_foldl_alter (f := fun v o => o.getD v) (fun _ => rfl) t.entries {} t.sorted)

end FlowAutomaton.Table
