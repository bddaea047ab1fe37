/-
Tables in which different keys may compare equal. A key that is equal to one that is there does not
take its place: the value is put under the key that came first. So what is kept for a key is an entry,
the first of the equal keys with the last of the values (`keptKey`, `entries_insert`), and putting
values is said by the entries that come of it.
-/
import FlowAutomaton.Proofs.Table
import Mathlib.Data.List.Pairwise

namespace FlowAutomaton.Table

variable {κ υ : Type} [Ord κ]

/-- The entry of a key: the key that came first, and the value. -/
def entryOf? (t : Table κ υ) (k : κ) : Option (κ × υ) := t.entries.find? fun e => compare k e.1 == .eq

/-- The key under which a value is put: the one that is equal to the key and there already, or the
key itself. -/
def keptKey (t : Table κ υ) (k : κ) : κ := ((t.entryOf? k).map Prod.fst).getD k

/-- The entries with smaller keys. -/
def before (t : Table κ υ) (k : κ) : List (κ × υ) := t.entries.filter fun e => compare k e.1 == .gt

/-- The entries with greater keys. -/
def after (t : Table κ υ) (k : κ) : List (κ × υ) := t.entries.filter fun e => compare k e.1 == .lt

/-- A table without the entry of a key. -/
def without (t : Table κ υ) (k : κ) : Table κ υ :=
  ⟨t.entries.filter fun e => compare k e.1 != .eq, t.sorted.sublist List.filter_sublist⟩

variable {t : Table κ υ} {k k' : κ}

/-! ## The entry of a key -/

theorem entryOf?_eq_none_iff : t.entryOf? k = none ↔ ∀ e ∈ t.entries, compare k e.1 ≠ .eq := by
  rw [entryOf?, List.find?_eq_none]
  simp

theorem find?_eq_none_iff : t.find? k = none ↔ ∀ e ∈ t.entries, compare k e.1 ≠ .eq := by
  rw [← entryOf?_eq_none_iff]
  exact Option.map_eq_none_iff

theorem keptKey_of_absent (h : ∀ e ∈ t.entries, compare k e.1 ≠ .eq) : t.keptKey k = k := by
  rw [keptKey, entryOf?_eq_none_iff.2 h]
  rfl

/-- Without a key that has no entry, a table is the same. -/
theorem without_of_absent (h : t.find? k = none) : t.without k = t :=
  eq_of_entries (List.filter_eq_self.2 fun e he => by simpa using find?_eq_none_iff.1 h e he)

/-- Where all entries have greater keys, none has a smaller or an equal one. -/
theorem split_of_lt {l : List (κ × υ)} (h : ∀ e ∈ l, compare k e.1 = .lt) :
    l.filter (fun e => compare k e.1 == .gt) = [] ∧
      (l.find? fun e => compare k e.1 == .eq) = none ∧
      l.filter (fun e => compare k e.1 == .lt) = l := by
  refine ⟨List.filter_eq_nil_iff.2 fun e he => ?_, List.find?_eq_none.2 fun e he => ?_,
    List.filter_eq_self.2 fun e he => ?_⟩
  · rw [h e he]
    exact Bool.false_ne_true
  · rw [h e he]
    exact Bool.false_ne_true
  · rw [h e he]
    rfl

variable [Std.TransOrd κ]

theorem eq_of_compare_keys {a b : κ × υ} (ha : a ∈ t.entries) (hb : b ∈ t.entries)
    (h : compare a.1 b.1 = .eq) : a = b := by
  by_contra hne
  have hdistinct : t.entries.Pairwise fun a b => compare a.1 b.1 ≠ .eq :=
    t.sorted.imp fun hab he => by rw [hab] at he; cases he
  have : Std.Symm fun a b : κ × υ => compare a.1 b.1 ≠ .eq :=
    ⟨fun _ _ hn he => hn (Std.OrientedCmp.eq_symm he)⟩
  exact hdistinct.forall ha hb hne h

theorem entryOf?_eq_some_iff {e : κ × υ} :
    t.entryOf? k = some e ↔ e ∈ t.entries ∧ compare k e.1 = .eq := by
  constructor
  · intro h
    exact ⟨List.mem_of_find?_eq_some h, by simpa using List.find?_some h⟩
  · rintro ⟨he, hk⟩
    cases hf : t.entryOf? k with
    | none => exact absurd hk (by simpa using List.find?_eq_none.1 hf e he)
    | some e' =>
      have hk' : compare k e'.1 = .eq := by simpa using List.find?_some hf
      have hkeys : compare e'.1 e.1 = .eq :=
        Std.TransCmp.eq_trans (Std.OrientedCmp.eq_symm hk') hk
      rw [eq_of_compare_keys (List.mem_of_find?_eq_some hf) he hkeys]

theorem compare_keptKey (t : Table κ υ) (k : κ) : compare k (t.keptKey k) = .eq := by
  rw [keptKey]
  cases h : t.entryOf? k with
  | none => exact Std.ReflCmp.compare_self
  | some e => exact (entryOf?_eq_some_iff.1 h).2

/-! ## Putting a value -/

theorem alterEntries_const {v : υ} {l : List (κ × υ)}
    (h : l.Pairwise fun a b => compare a.1 b.1 = .lt) :
    alterEntries k (fun _ => v) l =
      l.filter (fun e => compare k e.1 == .gt) ++
        (((l.find? fun e => compare k e.1 == .eq).map Prod.fst).getD k, v) ::
          l.filter (fun e => compare k e.1 == .lt) := by
  induction l with
  | nil => rfl
  | cons a l ih =>
    obtain ⟨ha, hl⟩ := List.pairwise_cons.1 h
    rw [alterEntries]
    cases hk : compare k a.1 with
    | lt =>
      obtain ⟨hgt, heq, hlt⟩ := split_of_lt fun e he => Std.TransCmp.lt_trans hk (ha e he)
      simp [hk, hgt, heq, hlt]
    | eq =>
      obtain ⟨hgt, -, hlt⟩ := split_of_lt fun e he => Std.TransCmp.lt_of_eq_of_lt hk (ha e he)
      simp [hk, hgt, hlt]
    | gt => simp [hk, ih hl]

/-- A value that is put under a key stands between the entries with smaller and with greater keys. -/
theorem entries_insert (t : Table κ υ) (k : κ) (v : υ) :
    (t.insert k v).entries = t.before k ++ (t.keptKey k, v) :: t.after k :=
  alterEntries_const t.sorted

theorem mem_insert_iff {v : υ} {e : κ × υ} :
    e ∈ (t.insert k v).entries ↔
      e ∈ t.entries ∧ compare k e.1 ≠ .eq ∨ e = (t.keptKey k, v) := by
  rw [entries_insert, List.mem_append, List.mem_cons, before, after, List.mem_filter,
    List.mem_filter]
  cases compare k e.1 <;> simp [or_comm]

theorem entryOf?_insert_of_eq (h : compare k' k = .eq) (v : υ) :
    (t.insert k v).entryOf? k' = some (t.keptKey k, v) :=
  entryOf?_eq_some_iff.2 ⟨mem_insert_iff.2 (.inr rfl), Std.TransCmp.eq_trans h (t.compare_keptKey k)⟩

theorem entryOf?_insert_of_ne (h : compare k' k ≠ .eq) (v : υ) :
    (t.insert k v).entryOf? k' = t.entryOf? k' := by
  refine Option.ext fun e => ?_
  rw [entryOf?_eq_some_iff, entryOf?_eq_some_iff, mem_insert_iff]
  constructor
  · rintro ⟨⟨he, -⟩ | rfl, hk⟩
    · exact ⟨he, hk⟩
    · exact absurd (Std.TransCmp.eq_trans hk (Std.OrientedCmp.eq_symm (t.compare_keptKey k))) h
  · rintro ⟨he, hk⟩
    exact ⟨.inl ⟨he, fun hk' => h (Std.TransCmp.eq_trans hk (Std.OrientedCmp.eq_symm hk'))⟩, hk⟩

theorem find?_insert_of_eq (t : Table κ υ) (h : compare k' k = .eq) (v : υ) :
    (t.insert k v).find? k' = some v :=
  congrArg (Option.map Prod.snd) (entryOf?_insert_of_eq h v)

theorem keptKey_insert_of_eq (h : compare k' k = .eq) (v : υ) :
    (t.insert k v).keptKey k' = t.keptKey k := by
  rw [keptKey, entryOf?_insert_of_eq h]
  rfl

theorem keptKey_insert_of_ne (h : compare k' k ≠ .eq) (v : υ) :
    (t.insert k v).keptKey k' = t.keptKey k' := by
  rw [keptKey, entryOf?_insert_of_ne h, keptKey]

/-! ## Putting two values -/

/-- A value that is put under an equal key takes the place of the first one, and the key stays. -/
theorem insert_insert_of_eq (h : compare k' k = .eq) (v v' : υ) :
    (t.insert k v).insert k' v' = t.insert k v' := by
  refine eq_of_mem fun e => ?_
  rw [mem_insert_iff, mem_insert_iff, mem_insert_iff, keptKey_insert_of_eq h,
    Std.TransCmp.congr_left h]
  have hkept := t.compare_keptKey k
  constructor
  · rintro (⟨he | rfl, hne⟩ | he)
    · exact .inl he
    · exact absurd hkept hne
    · exact .inr he
  · rintro (he | he)
    · exact .inl ⟨.inl he, he.2⟩
    · exact .inr he

/-- Values that are put under different keys are put in either order. -/
theorem insert_comm (h : compare k k' ≠ .eq) (v v' : υ) :
    (t.insert k v).insert k' v' = (t.insert k' v').insert k v := by
  have h' : compare k' k ≠ .eq := fun he => h (Std.OrientedCmp.eq_symm he)
  -- the key that is kept for the one is not that of the other
  have hkept : compare k' (t.keptKey k) ≠ .eq := fun he =>
    h' (Std.TransCmp.eq_trans he (Std.OrientedCmp.eq_symm (t.compare_keptKey k)))
  have hkept' : compare k (t.keptKey k') ≠ .eq := fun he =>
    h (Std.TransCmp.eq_trans he (Std.OrientedCmp.eq_symm (t.compare_keptKey k')))
  refine eq_of_mem fun e => ?_
  simp only [mem_insert_iff, keptKey_insert_of_ne h, keptKey_insert_of_ne h']
  constructor
  · rintro (⟨⟨he, hk⟩ | rfl, hk'⟩ | rfl)
    · exact .inl ⟨.inl ⟨he, hk'⟩, hk⟩
    · exact .inr rfl
    · exact .inl ⟨.inr rfl, hkept'⟩
  · rintro (⟨⟨he, hk'⟩ | rfl, hk⟩ | rfl)
    · exact .inl ⟨.inl ⟨he, hk⟩, hk'⟩
    · exact .inr rfl
    · exact .inl ⟨.inr rfl, hkept⟩

/-! ## Without a key -/

theorem absent_without (h : compare k' k = .eq) :
    ∀ e ∈ (t.without k).entries, compare k' e.1 ≠ .eq := by
  intro e he hk
  have hne : compare k e.1 ≠ .eq := by simpa using (List.mem_filter.1 he).2
  exact hne (Std.TransCmp.eq_trans (Std.OrientedCmp.eq_symm h) hk)

theorem without_congr (h : compare k' k = .eq) : t.without k' = t.without k :=
  eq_of_entries (List.filter_congr fun e _ => by rw [Std.TransCmp.congr_left h])

theorem before_without (h : compare k' k = .eq) : (t.without k).before k' = t.before k := by
  rw [before, before, without, List.filter_filter]
  refine List.filter_congr fun e _ => ?_
  rw [Std.TransCmp.congr_left h]
  cases compare k e.1 <;> rfl

theorem after_without (h : compare k' k = .eq) : (t.without k).after k' = t.after k := by
  rw [after, after, without, List.filter_filter]
  refine List.filter_congr fun e _ => ?_
  rw [Std.TransCmp.congr_left h]
  cases compare k e.1 <;> rfl

/-- Without its entry, a key is put where an equal key was, as it is. -/
theorem entries_insert_without (h : compare k' k = .eq) (v : υ) :
    ((t.without k).insert k' v).entries = t.before k ++ (k', v) :: t.after k := by
  rw [entries_insert, before_without h, after_without h, keptKey_of_absent (absent_without h)]

/-- To put a value under a key is to put it under the key that is kept, into a table that has no
entry for it. -/
theorem insert_eq_without (t : Table κ υ) (k : κ) (v : υ) :
    t.insert k v = (t.without k).insert (t.keptKey k) v := by
  have h : compare (t.keptKey k) k = .eq := Std.OrientedCmp.eq_symm (t.compare_keptKey k)
  exact eq_of_entries ((entries_insert t k v).trans (entries_insert_without h v).symm)

end FlowAutomaton.Table
