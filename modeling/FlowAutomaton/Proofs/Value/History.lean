/-
Values and the updates that made them. An update that fails changes nothing, so what a value holds is
what the updates say that succeeded: for a register the width that it was added with last and what was
written to it since, and for a stretch of memory what was written there last.

`Records` says that of a value and some updates; one update that succeeds keeps it
(`Records.concat`), and a run is updates one after the other. The lines of a value need no history:
they go with its tables, which are kept in order.
-/
import FlowAutomaton.Proofs.Configuration.History
import FlowAutomaton.Proofs.Text.Order
import FlowAutomaton.Proofs.Value.Update

namespace FlowAutomaton

/-- Some bit may be tainted: the value or the mask is not zero. -/
def Taint.Nonzero : Taint → Prop
  | .exact value => value ≠ 0
  | .masked value mask => value ≠ 0 ∨ mask ≠ 0

theorem Taint.isNonzero_iff {t : Taint} : t.isNonzero = true ↔ t.Nonzero := by
  cases t with
  | exact value => simp [isNonzero, numbers, Nonzero]
  | masked value mask => simp [isNonzero, numbers, Nonzero]

namespace Value

/-! ## What updates say -/

namespace Update

/-- An update adds a register of a name. -/
def Adds (u : Update) (name : String) : Prop := ∃ r, u = addRegister r ∧ r.name = name

/-- What an update writes to the register of a name, with the region it points to. -/
def content? (name : String) : Update → Option (Region × Initializer)
  | setRegister name' region i => if name' = name then some (region, i) else none
  | _ => none

/-- What an update writes to a stretch of memory, whatever the size of the address and the region in
which it was asked for. -/
def memory? (place : Location) : Update → Option Initializer
  | setMemory _ place' _ i => if place'.Same place then some i else none
  | _ => none

end Update

/-- What some updates write last to the register of a name. -/
def lastContent (l : List Update) (name : String) : Option (Region × Initializer) :=
  (l.filterMap (Update.content? name)).getLast?

/-- What some updates write last to a stretch of memory. -/
def lastMemory (l : List Update) (place : Location) : Option Initializer :=
  (l.filterMap (Update.memory? place)).getLast?

/-- The register that some updates add last under a name, and the updates since. -/
structure AddedLast (l : List Update) (name : String) (r : Register) (since : List Update) :
    Prop where
  added : ∃ pre, l = pre ++ .addRegister r :: since
  name_eq : r.name = name
  not_again : ∀ u ∈ since, ¬u.Adds name

/-- The cell of a register, by what was written to it since it was added. -/
def cellOf (r : Register) (o : Option (Region × Initializer)) : RegisterCell where
  width := r.width
  region := (o.map Prod.fst).getD .global
  content := o.map fun x => x.2.content
  taint := o.bind fun x => x.2.taint

/-- A cell is the one that some updates leave for a name. -/
def LeftFor (l : List Update) (name : String) (k : RegisterCell) : Prop :=
  ∃ r since, AddedLast l name r since ∧ k = cellOf r (lastContent since name)

/-- A value holds what some updates say. -/
structure Records (v : Value) (l : List Update) : Prop where
  register : ∀ name k, v.register name = .ok k ↔ LeftFor l name k
  memory : ∀ place,
    v.memory? place = (lastMemory l place).map fun i => ⟨place.count, i.content, i.taint⟩

/-! ## What one more update says -/

variable {v : Value} {l : List Update} {u : Update} {w : Write} {name : String}

theorem lastContent_concat (l : List Update) (u : Update) (name : String) :
    lastContent (l ++ [u]) name = (u.content? name).or (lastContent l name) :=
  getLast?_filterMap_concat _ l u

theorem lastMemory_concat (l : List Update) (u : Update) (place : Location) :
    lastMemory (l ++ [u]) place = (u.memory? place).or (lastMemory l place) :=
  getLast?_filterMap_concat _ l u

theorem not_adds_of_target_ne (h : u.target ≠ .register name) : ¬u.Adds name := by
  rintro ⟨r, rfl, rfl⟩
  exact h rfl

theorem content?_of_target_ne (h : u.target ≠ .register name) : u.content? name = none := by
  cases u with
  | setRegister name' region i =>
    have hne : name' ≠ name := fun he => h (congrArg Target.register he)
    rw [Update.content?, if_neg hne]
  | _ => rfl

theorem memory?_of_target_ne {place : Location} (h : u.target ≠ .ofLocation place) :
    u.memory? place = none := by
  cases u with
  | setMemory warnings place' region i =>
    rw [Update.memory?, if_neg fun hs => h (Target.ofLocation_eq_iff.2 hs)]
  | _ => rfl

/-- A member of a list with one more at its end is the one more, or one of the others with the one more
behind. -/
theorem concat_eq_append_cons_iff {α : Type} {l pre post : List α} {a b : α} :
    l ++ [a] = pre ++ b :: post ↔
      l = pre ∧ a = b ∧ post = [] ∨ ∃ post', post = post' ++ [a] ∧ l = pre ++ b :: post' := by
  constructor
  · intro h
    rcases post.eq_nil_or_concat with rfl | ⟨post', c, rfl⟩
    · obtain ⟨hl, ha⟩ := List.append_inj' h rfl
      exact .inl ⟨hl, List.singleton_inj.1 ha, rfl⟩
    · rw [List.concat_eq_append, ← List.cons_append, ← List.append_assoc] at h
      obtain ⟨hl, ha⟩ := List.append_inj' h rfl
      rw [List.concat_eq_append, List.singleton_inj.1 ha]
      exact .inr ⟨post', rfl, hl⟩
  · rintro (⟨rfl, rfl, rfl⟩ | ⟨post', rfl, rfl⟩)
    · rfl
    · rw [List.append_assoc, List.cons_append]

/-- The register that was added last is the one that is added now. -/
theorem addedLast_concat_self {r r' : Register} {since : List Update} :
    AddedLast (l ++ [.addRegister r]) r.name r' since ↔ r' = r ∧ since = [] := by
  constructor
  · rintro ⟨⟨pre, hl⟩, hn, hnot⟩
    rcases concat_eq_append_cons_iff.1 hl with ⟨-, hr, rfl⟩ | ⟨since', rfl, -⟩
    · exact ⟨(Update.addRegister.inj hr).symm, rfl⟩
    · -- what is added now would be among the updates since
      exact absurd ⟨r, rfl, rfl⟩ (hnot _ (List.mem_append_right _ List.mem_cons_self))
  · rintro ⟨rfl, rfl⟩
    exact ⟨⟨l, rfl⟩, rfl, fun u hu => absurd hu List.not_mem_nil⟩

/-- An update that does not add the register is one of the updates since it was added. -/
theorem addedLast_concat_of_not_adds (h : ¬u.Adds name) {r : Register} {since : List Update} :
    AddedLast (l ++ [u]) name r since ↔
      ∃ since', since = since' ++ [u] ∧ AddedLast l name r since' := by
  constructor
  · rintro ⟨⟨pre, hl⟩, hn, hnot⟩
    rcases concat_eq_append_cons_iff.1 hl with ⟨-, hr, rfl⟩ | ⟨since', rfl, hl'⟩
    · exact absurd ⟨r, hr, hn⟩ h
    · exact ⟨since', rfl, ⟨pre, hl'⟩, hn, fun x hx => hnot x (List.mem_append_left _ hx)⟩
  · rintro ⟨since', rfl, ⟨pre, rfl⟩, hn, hnot⟩
    refine ⟨⟨pre, concat_eq_append_cons_iff.2 (.inr ⟨since', rfl, rfl⟩)⟩, hn, fun x hx => ?_⟩
    rcases List.mem_append.1 hx with hx | hx
    · exact hnot x hx
    · rw [List.mem_singleton.1 hx]
      exact h

theorem leftFor_concat_add {r : Register} {k : RegisterCell} :
    LeftFor (l ++ [.addRegister r]) r.name k ↔ k = { width := r.width } := by
  constructor
  · rintro ⟨r', since, ha, rfl⟩
    obtain ⟨rfl, rfl⟩ := addedLast_concat_self.1 ha
    rfl
  · rintro rfl
    exact ⟨r, [], addedLast_concat_self.2 ⟨rfl, rfl⟩, rfl⟩

/-- A register that is written keeps the width that it was added with. -/
theorem leftFor_concat_set {region : Region} {i : Initializer} {k : RegisterCell} :
    LeftFor (l ++ [.setRegister name region i]) name k ↔
      ∃ old, LeftFor l name old ∧ k = ⟨old.width, region, some i.content, i.taint⟩ := by
  have hnot : ¬(Update.setRegister name region i).Adds name := by
    rintro ⟨r, hr, -⟩
    cases hr
  have hlast (since : List Update) :
      lastContent (since ++ [.setRegister name region i]) name = some (region, i) := by
    rw [lastContent_concat, Update.content?, if_pos rfl, Option.some_or]
  constructor
  · rintro ⟨r, since, ha, rfl⟩
    obtain ⟨since', rfl, ha'⟩ := (addedLast_concat_of_not_adds hnot).1 ha
    exact ⟨_, ⟨r, since', ha', rfl⟩, by rw [hlast]; rfl⟩
  · rintro ⟨old, ⟨r, since', ha, rfl⟩, rfl⟩
    exact ⟨r, _, (addedLast_concat_of_not_adds hnot).2 ⟨since', rfl, ha⟩, by rw [hlast]; rfl⟩

theorem leftFor_concat_of_ne (h : u.target ≠ .register name) {k : RegisterCell} :
    LeftFor (l ++ [u]) name k ↔ LeftFor l name k := by
  have hlast (since : List Update) : lastContent (since ++ [u]) name = lastContent since name := by
    rw [lastContent_concat, content?_of_target_ne h, Option.none_or]
  constructor
  · rintro ⟨r, since, ha, rfl⟩
    obtain ⟨since', rfl, ha'⟩ := (addedLast_concat_of_not_adds (not_adds_of_target_ne h)).1 ha
    exact ⟨r, since', ha', by rw [hlast]⟩
  · rintro ⟨r, since, ha, rfl⟩
    exact ⟨r, since ++ [u],
      (addedLast_concat_of_not_adds (not_adds_of_target_ne h)).2 ⟨since, rfl, ha⟩, by rw [hlast]⟩

/-! ## What a value holds -/

/-- After an update that succeeds, a value holds what the update says as well. -/
theorem Records.concat (h : v.Records l) (hw : u.write v = .ok w) :
    (v.put w).Records (l ++ [u]) where
  register name k := by
    by_cases ht : u.target = .register name
    · cases u with
      | addRegister r =>
        cases hw
        obtain rfl : r.name = name := Target.register.inj ht
        rw [leftFor_concat_add, register_put_self, Except.ok.injEq, eq_comm]
      | setRegister name' region i =>
        obtain rfl : name' = name := Target.register.inj ht
        obtain ⟨old, hf, -, rfl⟩ := write_setRegister hw
        rw [leftFor_concat_set, register_put_self, Except.ok.injEq, eq_comm]
        simp only [← h.register, hf, Except.ok.injEq, exists_eq_left']
      | setMemory warnings place region i => cases ht
    · rw [register_put_of_ne (target_write hw ▸ ht), leftFor_concat_of_ne ht, h.register]
  memory place := by
    rw [lastMemory_concat]
    by_cases ht : u.target = .ofLocation place
    · cases u with
      | setMemory warnings place' region i =>
        have hs : place'.Same place := Target.ofLocation_eq_iff.1 ht
        rw [write_setMemory hw, Update.memory?, if_pos hs, memory?, put,
          v.memory.find?_insert_of_eq (Location.compare_eq_iff.2 hs.symm), hs.count]
        rfl
      | _ => cases ht
    · rw [memory?_put_of_ne (target_write hw ▸ ht), memory?_of_target_ne ht, Option.none_or, h.memory]

theorem records_empty : Records {} [] where
  register name k := by
    constructor
    · intro h
      cases h
    · rintro ⟨r, since, ⟨⟨pre, hl⟩, -, -⟩, -⟩
      exact absurd hl.symm (List.append_ne_nil_of_right_ne_nil pre (List.cons_ne_nil _ _))
  memory place := rfl

/-! ## Registers that were added -/

/-- An update that succeeds leaves a register there if it was there before or is added. -/
theorem exists_register_put (hw : u.write v = .ok w) :
    (∃ k, (v.put w).register name = .ok k) ↔ (∃ k, v.register name = .ok k) ∨ u.Adds name := by
  by_cases ht : u.target = .register name
  · cases u with
    | addRegister r =>
      cases hw
      obtain rfl : r.name = name := Target.register.inj ht
      exact iff_of_true ⟨_, register_put_self⟩ (.inr ⟨r, rfl, rfl⟩)
    | setRegister name' region i =>
      obtain rfl : name' = name := Target.register.inj ht
      obtain ⟨old, hf, -, rfl⟩ := write_setRegister hw
      exact iff_of_true ⟨_, register_put_self⟩ (.inl ⟨old, hf⟩)
    | setMemory warnings place region i => cases ht
  · rw [register_put_of_ne (target_write hw ▸ ht)]
    exact (or_iff_left (not_adds_of_target_ne ht)).symm

theorem exists_register_iff (us : List Update) (name : String) :
    (∃ k, (afterAll {} us).register name = .ok k) ↔ ∃ u ∈ accepted {} us, u.Adds name := by
  refine run_induction
    (P := fun v l => (∃ k, v.register name = .ok k) ↔ ∃ u ∈ l, u.Adds name) (l := []) ?_ ?_ us
  · exact iff_of_false (fun ⟨k, hk⟩ => by cases hk) (fun ⟨u, hu, _⟩ => by cases hu)
  · intro v l u w h hw
    rw [exists_register_put hw, h]
    simp only [List.mem_append, List.mem_singleton, or_and_right, exists_or, exists_eq_left]

/-- A register is not there if and only if it was never added. -/
theorem register_fails_iff (us : List Update) (name : String) :
    (∃ e, (afterAll {} us).register name = .error e) ↔ ∀ u ∈ us, ¬u.Adds name := by
  have hfails : (∃ e, (afterAll {} us).register name = .error e) ↔
      ¬∃ k, (afterAll {} us).register name = .ok k := by
    cases (afterAll {} us).register name with
    | ok k => simp
    | error e => simp
  rw [hfails, exists_register_iff, ← not_exists_mem]
  refine not_congr ⟨fun ⟨u, hu, ha⟩ => ?_, fun ⟨u, hu, ha⟩ => ?_⟩
  · exact ⟨u, (accepted_sublist {} us).subset hu, ha⟩
  · obtain ⟨r, rfl, hr⟩ := ha
    exact ⟨_, mem_accepted_of_add hu {}, r, rfl, hr⟩

/-! ## Registers without bytes -/

/-- No cell of a register holds bytes. -/
def NoBytes (v : Value) : Prop :=
  ∀ name k, v.register name = .ok k → k.content.any Content.isBytes = false

theorem NoBytes.put (h : v.NoBytes) (hw : u.write v = .ok w) : (v.put w).NoBytes := by
  intro name k hk
  by_cases ht : u.target = .register name
  · cases u with
    | addRegister r =>
      cases hw
      obtain rfl : r.name = name := Target.register.inj ht
      rw [register_put_self] at hk
      cases hk
      rfl
    | setRegister name' region i =>
      obtain rfl : name' = name := Target.register.inj ht
      obtain ⟨old, -, hb, rfl⟩ := write_setRegister hw
      rw [register_put_self] at hk
      cases hk
      exact hb
    | setMemory warnings place region i => cases ht
  · rw [register_put_of_ne (target_write hw ▸ ht)] at hk
    exact h name k hk

/-! ## Tainted registers -/

theorem isTainted_eq_ok_iff {b : Bool} :
    v.isTainted name = .ok b ↔
      ∃ k, v.register name = .ok k ∧ (b = true ↔ ∃ t, k.taint = some t ∧ t.Nonzero) := by
  rw [isTainted]
  cases v.register name with
  | error e => simp [Except.map]
  | ok k =>
    have htaint : k.taint.any Taint.isNonzero = true ↔ ∃ t, k.taint = some t ∧ t.Nonzero := by
      cases k.taint with
      | none => simp
      | some t => simpa using Taint.isNonzero_iff
    simp only [Except.map, Except.ok.injEq, exists_eq_left', ← htaint]
    rw [← Bool.eq_iff_iff, eq_comm]

/-! ## Lines -/

/-- The lines of a value are those of its registers, by increasing bytes of their names, and then those
of its stretches of memory, by increasing places. -/
structure LinesOf (v : Value) (rs : List (String × RegisterCell)) (ms : List (Location × MemoryCell)) :
    Prop where
  lines_eq : v.lines = rs.map registerLine ++ ms.map memoryLine
  registers : ∀ name k, (name, k) ∈ rs ↔ v.register name = .ok k
  memory : ∀ place k, (∃ p, p.Same place ∧ (p, k) ∈ ms) ↔ v.memory? place = some k
  names_increasing : rs.Pairwise fun a b => Text.toBytes a.1 < Text.toBytes b.1
  places_increasing : ms.Pairwise fun a b => a.1.Before b.1

theorem lines_entries (v : Value) : v.LinesOf v.registers.entries v.memory.entries where
  lines_eq := rfl
  registers name k := Table.mem_entries_iff.trans register_eq_ok_iff.symm
  memory place k := by
    refine Iff.symm ((Table.valueIn?_eq_some_iff v.memory.sorted).trans ?_)
    simp only [Location.compare_eq_iff]
    exact exists_congr fun p => and_congr_left fun _ => ⟨Location.Same.symm, Location.Same.symm⟩
  names_increasing := v.registers.sorted.imp Text.toBytes_lt
  places_increasing := v.memory.sorted.imp Location.compare_eq_lt_iff.1

/-! ## Values that updates made -/

/-- What holds of the empty value after any updates, those that failed included. -/
theorem history_of_updates (us : List Update) :
    let v := afterAll {} us
    v.Records (accepted {} us) ∧
      (∀ name, (∃ e, v.register name = .error e) ↔ ∀ u ∈ us, ¬u.Adds name) ∧
      v.NoBytes ∧
      (∀ name b, v.isTainted name = .ok b ↔
        ∃ k, v.register name = .ok k ∧ (b = true ↔ ∃ t, k.taint = some t ∧ t.Nonzero)) ∧
      v.lines.length = v.registers.size + v.memory.size ∧
      v.LinesOf v.registers.entries v.memory.entries := by
  intro v
  have records : v.Records (accepted {} us) :=
    run_induction (P := Records) records_empty (fun h hw => h.concat hw) us
  have noBytes : v.NoBytes :=
    run_induction (P := fun v _ => v.NoBytes) (l := []) (fun _ _ hk => by cases hk)
      (fun h hw => h.put hw) us
  refine ⟨records, register_fails_iff us, noBytes, fun name b => isTainted_eq_ok_iff, ?_,
    lines_entries v⟩
  rw [lines, List.length_append, List.length_map, List.length_map, Table.size, Table.size]

end Value

end FlowAutomaton
