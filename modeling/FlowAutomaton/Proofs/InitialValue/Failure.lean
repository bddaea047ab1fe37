/-
Which configurations have no initial value, and what they are refused for. The contents of
registers are checked first, in the order of the bytes of their names, and then the addresses of
each region, in the order of their offsets; so the failure is about the first register, in that
order, whose content does not fit it, or about the least address of the first region with a
negative one. There is no other failure, whatever steps made the configuration.
-/
import FlowAutomaton.Proofs.InitialValue.Outcome
import FlowAutomaton.Proofs.Text.Order
import Mathlib.Tactic.ByContra

namespace FlowAutomaton

/-! ## What does not fit -/

/-- A content that cannot be put into a register of a width: bytes, or a number of more bits. -/
def Content.Unfit (width : UInt32) : Content → Prop
  | .exact v => width < Bits.length v
  | .masked v m => width < Bits.length v ∨ width < Bits.length m
  | .bytes _ => True

/-- A taint that cannot be put into a register of a width. -/
def Taint.Unfit (width : UInt32) : Taint → Prop
  | .exact v => width < Bits.length v
  | .masked v m => width < Bits.length v ∨ width < Bits.length m

/-- An initializer that cannot be put into a register of a width. -/
def Initializer.Unfit (width : UInt32) (i : Initializer) : Prop :=
  i.content.Unfit width ∨ ∃ t, i.taint = some t ∧ t.Unfit width

namespace InitialValue

open FlowAutomaton.Configuration (Step configured)

/-- The register of a name has an initial content that does not fit it. -/
def UnfitAt (c : Configuration) (name : String) (i : Initializer) : Prop :=
  c.contents.find? name = some i ∧
    ∃ r, c.registers.find? name = some r ∧ i.Unfit r.width

/-- The first register of a configuration, by the bytes of the names, with an initial content
that does not fit it. -/
def FirstUnfit (c : Configuration) (name : String) (i : Initializer) : Prop :=
  UnfitAt c name i ∧ ∀ name' i', UnfitAt c name' i' →
    name' = name ∨ Text.toBytes name < Text.toBytes name'

/-- A region has an extent with a negative offset. -/
def HasNegative (t : MemoryTable) : Prop := ∃ extent ∈ t.keys, extent.offset < 0

/-- The least offset of a region, and a negative one. -/
def LeastNegative (t : MemoryTable) (n : Int) : Prop :=
  n < 0 ∧ (∃ extent ∈ t.keys, extent.offset = n) ∧ ∀ extent ∈ t.keys, n ≤ extent.offset

/-- The first region of a configuration, by the numbers of the regions, that has an extent with a
negative offset. -/
def FirstNegative (c : Configuration) (region : Region) (t : MemoryTable) : Prop :=
  c.memory region = .ok t ∧ ∀ region' t', c.memory region' = .ok t' → HasNegative t' →
    region' = region ∨ region.code < region'.code

/-- The failures that a configuration gives cause for, and what they say. -/
inductive Blames (c : Configuration) : Fault → String → Prop
  | bytes {name pattern : String} {taint : Option Taint}
    (h : FirstUnfit c name ⟨.bytes pattern, taint⟩) :
    Blames c (.bytesForRegister name)
      ("Illegal memory init \"|xx|\" spec used for register " ++ name)
  | width {name : String} {i : Initializer} (h : FirstUnfit c name i)
    (hi : ∀ pattern, i.content ≠ .bytes pattern) :
    Blames c (.tooWide name) ("Illegal initialisation for register " ++ name)
  | address {region : Region} {t : MemoryTable} {n : Int} (hnone : ∀ name i, ¬UnfitAt c name i)
    (h : FirstNegative c region t) (hn : LeastNegative t n) :
    Blames c (.negativeOffset n) ("negative address " ++ toString n)

/-! ## Checks one after the other -/

section

variable {α : Type} {x y : Except Fault Unit} {f : α → Except Fault Unit} {l : List α} {e : Fault}

theorem seq_eq_ok_iff : (x >>= fun _ => y) = .ok () ↔ x = .ok () ∧ y = .ok () := by
  cases x with
  | ok u => exact ⟨fun h => ⟨rfl, h⟩, fun h => h.2⟩
  | error e => exact ⟨(nomatch ·), (nomatch ·.1)⟩

theorem seq_eq_error_iff :
    (x >>= fun _ => y) = .error e ↔ x = .error e ∨ x = .ok () ∧ y = .error e := by
  cases x with
  | ok u => exact ⟨fun h => .inr ⟨rfl, h⟩, fun h => h.elim (nomatch ·) And.right⟩
  | error e => exact ⟨.inl, fun h => h.elim id (nomatch ·.1)⟩

theorem forM_eq_ok_iff : l.forM f = .ok () ↔ ∀ a ∈ l, f a = .ok () := by
  induction l with
  | nil =>
    refine ⟨fun _ a ha => ?_, fun _ => rfl⟩
    cases ha
  | cons a l ih =>
    change (f a >>= fun _ => l.forM f) = _ ↔ _
    rw [seq_eq_ok_iff, ih, List.forall_mem_cons]

/-- The failure of checks that are made in some order is that of the first one that fails. -/
theorem forM_eq_error_iff {lt : α → α → Prop} (asymm : ∀ {a b}, lt a b → ¬lt b a)
    (h : l.Pairwise lt) :
    l.forM f = .error e ↔
      ∃ a ∈ l, f a = .error e ∧ ∀ b ∈ l, f b ≠ .ok () → b = a ∨ lt a b := by
  induction l with
  | nil =>
    refine ⟨(nomatch ·), ?_⟩
    rintro ⟨a, ha, -⟩
    cases ha
  | cons a l ih =>
    obtain ⟨ha, hl⟩ := List.pairwise_cons.1 h
    change (f a >>= fun _ => l.forM f) = _ ↔ _
    rw [seq_eq_error_iff, ih hl]
    -- all others come after the head, so if it fails it is the first that does
    constructor
    · rintro (hf | ⟨hf, b, hb, hfb, hleast⟩)
      · refine ⟨a, List.mem_cons_self, hf, fun b hb _ => ?_⟩
        exact (List.mem_cons.1 hb).imp_right (ha b)
      · refine ⟨b, List.mem_cons_of_mem a hb, hfb, fun d hd hfd => ?_⟩
        rcases List.mem_cons.1 hd with rfl | hd
        · exact absurd hf hfd
        · exact hleast d hd hfd
    · rintro ⟨b, hb, hfb, hleast⟩
      rcases List.mem_cons.1 hb with rfl | hb
      · exact .inl hfb
      · -- the head comes before the first check that fails, so it does not fail
        have hf : f a = .ok () := by
          by_contra hf
          rcases hleast a List.mem_cons_self hf with rfl | hlt
          · exact asymm (ha a hb) (ha a hb)
          · exact asymm hlt (ha b hb)
        exact .inr ⟨hf, b, hb, hfb, fun d hd => hleast d (List.mem_cons_of_mem a hd)⟩

end

theorem lt_asymm {κ : Type} [Ord κ] [Std.OrientedOrd κ] {a b : κ} (h : compare a b = .lt) :
    ¬compare b a = .lt := by
  rw [Std.OrientedCmp.gt_of_lt h]
  exact nofun

/-! ## Registers -/

/-- What the check of a register fails with. -/
def refusal (name : String) (i : Initializer) : Fault :=
  if i.content.isBytes then .bytesForRegister name else .tooWide name

/-- Numbers fit a register exactly if neither the content nor the taint that they are of is unfit. -/
theorem numbers_fit_iff (i : Initializer) (width : UInt32) (h : ¬i.content.isBytes = true) :
    i.numbers.all (Bits.length · ≤ width) = true ↔ ¬i.Unfit width := by
  obtain ⟨content, taint⟩ := i
  have hcontent : content.numbers.all (Bits.length · ≤ width) = true ↔ ¬content.Unfit width := by
    cases content with
    | exact v => simp [Content.numbers, Content.Unfit]
    | masked v m => simp [Content.numbers, Content.Unfit]
    | bytes p => exact absurd rfl h
  have htaint : ((taint.map Taint.numbers).getD []).all (Bits.length · ≤ width) = true ↔
      ¬∃ t, taint = some t ∧ t.Unfit width := by
    cases taint with
    | none => simp
    | some t =>
      cases t with
      | exact v => simp [Taint.numbers, Taint.Unfit]
      | masked v m => simp [Taint.numbers, Taint.Unfit]
  rw [Initializer.numbers, List.all_append, Bool.and_eq_true, hcontent, htaint,
    Initializer.Unfit, not_or]

theorem checkRegister_eq (i : Initializer) (r : Register) [Decidable (i.Unfit r.width)] :
    i.checkRegister r = if i.Unfit r.width then .error (refusal r.name i) else .ok () := by
  rw [refusal]
  by_cases hb : i.content.isBytes = true
  · have hunfit : i.Unfit r.width := by
      obtain ⟨content, taint⟩ := i
      cases content with
      | bytes p => exact .inl trivial
      | exact v => cases hb
      | masked v m => cases hb
    rw [checkRegister_of_bytes hb, if_pos hunfit, if_pos hb]
  · rw [Initializer.checkRegister, if_neg hb, if_neg hb]
    have hfit := numbers_fit_iff i r.width hb
    by_cases hunfit : i.Unfit r.width
    · rw [if_pos hunfit, if_neg fun h => hfit.1 h hunfit]
    · rw [if_neg hunfit, if_pos (hfit.2 hunfit)]

variable {c : Configuration} {e : Fault}

theorem registerVerdict_eq (h : c.WF) {name : String} {i : Initializer}
    (hi : c.contents.find? name = some i) [Decidable (UnfitAt c name i)] :
    registerVerdict c.registers (name, i) =
      if UnfitAt c name i then .error (refusal name i) else .ok () := by
  -- contents are those of declared registers, so the other failure does not come about
  obtain ⟨r, hr⟩ := h.contents_declared name i hi
  have hunfit : i.Unfit r.width ↔ UnfitAt c name i := by
    refine ⟨fun hu => ⟨hi, r, hr, hu⟩, ?_⟩
    rintro ⟨-, r', hr', hu⟩
    rw [hr] at hr'
    cases hr'
    exact hu
  classical
  rw [registerVerdict]
  simp only [hr]
  rw [checkRegister_eq, RegisterTable.name_of_find? hr]
  simp only [hunfit]

/-- All registers pass exactly if no initial content is unfit. -/
theorem registers_eq_ok_iff (h : c.WF) :
    c.contents.entries.forM (registerVerdict c.registers) = .ok () ↔
      ∀ name i, ¬UnfitAt c name i := by
  classical
  rw [forM_eq_ok_iff]
  constructor
  · intro hok name i hu
    have hv := hok (name, i) (Table.mem_entries_iff.2 hu.1)
    rw [registerVerdict_eq h hu.1, if_pos hu] at hv
    cases hv
  · rintro hnone ⟨name, i⟩ hm
    rw [registerVerdict_eq h (Table.mem_entries_iff.1 hm), if_neg (hnone name i)]

/-- The register that is blamed is the first one that has an unfit content. -/
theorem registers_eq_error_iff (h : c.WF) :
    c.contents.entries.forM (registerVerdict c.registers) = .error e ↔
      ∃ name i, FirstUnfit c name i ∧ e = refusal name i := by
  classical
  rw [forM_eq_error_iff lt_asymm c.contents.sorted]
  constructor
  · rintro ⟨⟨name, i⟩, hm, he, hleast⟩
    have hi := Table.mem_entries_iff.1 hm
    rw [registerVerdict_eq h hi] at he
    split at he
    · rename_i hu
      refine ⟨name, i, ⟨hu, fun name' i' hu' => ?_⟩, (Except.error.inj he).symm⟩
      have hfails : registerVerdict c.registers (name', i') ≠ .ok () := by
        simp [registerVerdict_eq h hu'.1, hu']
      rw [Text.toBytes_lt_iff]
      exact (hleast _ (Table.mem_entries_iff.2 hu'.1) hfails).imp_left (congrArg Prod.fst)
    · cases he
  · rintro ⟨name, i, ⟨hu, hleast⟩, rfl⟩
    refine ⟨(name, i), Table.mem_entries_iff.2 hu.1, ?_, ?_⟩
    · rw [registerVerdict_eq h hu.1, if_pos hu]
    · rintro ⟨name', i'⟩ hm hfails
      have hi' := Table.mem_entries_iff.1 hm
      have hu' : UnfitAt c name' i' := by
        by_contra hu'
        exact hfails (by rw [registerVerdict_eq h hi', if_neg hu'])
      rcases hleast name' i' hu' with rfl | hlt
      · rw [hu.1] at hi'
        exact .inl (by rw [Option.some.inj hi'])
      · exact .inr (Text.toBytes_lt_iff.1 hlt)

/-! ## Regions -/

theorem offsets_eq_ok_iff {t : MemoryTable} :
    t.entries.forM offsetVerdict = .ok () ↔ ¬HasNegative t := by
  rw [forM_eq_ok_iff]
  constructor
  · rintro hok ⟨extent, he, hneg⟩
    obtain ⟨i, hi⟩ := Table.mem_keys_iff.1 he
    have hv := hok (extent, i) (Table.mem_entries_iff.2 hi)
    rw [offsetVerdict, if_pos hneg] at hv
    cases hv
  · rintro hnone ⟨extent, i⟩ hm
    rw [offsetVerdict, if_neg fun hneg => hnone ⟨extent, List.mem_map_of_mem hm, hneg⟩]

/-- An extent that comes before another one does not start behind it. -/
theorem offset_le_of_lt {a b : Extent} (h : compare a b = .lt) : a.offset ≤ b.offset := by
  rcases Ordering.then_eq_lt.1 h with ho | ⟨ho, -⟩
  · exact Int.le_of_lt (compareOfLessAndEq_eq_lt.1 ho)
  · exact Int.le_of_eq (Std.LawfulEqOrd.eq_of_compare ho)

theorem LeastNegative.unique {t : MemoryTable} {m n : Int} (hm : LeastNegative t m)
    (hn : LeastNegative t n) : m = n := by
  obtain ⟨-, ⟨a, ha, rfl⟩, hma⟩ := hm
  obtain ⟨-, ⟨b, hb, rfl⟩, hnb⟩ := hn
  exact Int.le_antisymm (hma b hb) (hnb a ha)

theorem leastNegative_of_error {t : MemoryTable} (h : t.entries.forM offsetVerdict = .error e) :
    ∃ n, LeastNegative t n ∧ e = .negativeOffset n := by
  obtain ⟨⟨extent, i⟩, hm, he, hleast⟩ := (forM_eq_error_iff lt_asymm t.sorted).1 h
  rw [offsetVerdict] at he
  split at he
  · rename_i hneg
    refine ⟨extent.offset, ⟨hneg, ⟨extent, List.mem_map_of_mem hm, rfl⟩, fun extent' he' => ?_⟩,
      (Except.error.inj he).symm⟩
    obtain ⟨i', hi'⟩ := Table.mem_keys_iff.1 he'
    -- extents are in the order of their offsets, but only negative ones stop the checks
    by_cases hneg' : extent'.offset < 0
    · have hfails : offsetVerdict (extent', i') ≠ .ok () := by simp [offsetVerdict, hneg']
      rcases hleast _ (Table.mem_entries_iff.2 hi') hfails with heq | hlt
      · exact Int.le_of_eq (congrArg (fun e => e.1.offset) heq.symm)
      · exact offset_le_of_lt hlt
    · have hneg : extent.offset < 0 := hneg
      omega
  · cases he

/-- The offset that is blamed is the least one of its region. -/
theorem offsets_eq_error_iff {t : MemoryTable} :
    t.entries.forM offsetVerdict = .error e ↔ ∃ n, LeastNegative t n ∧ e = .negativeOffset n := by
  refine ⟨leastNegative_of_error, ?_⟩
  rintro ⟨n, hn, rfl⟩
  cases hr : t.entries.forM offsetVerdict with
  | ok u =>
    obtain ⟨hneg, ⟨extent, he, rfl⟩, -⟩ := hn
    exact absurd ⟨extent, he, hneg⟩ (offsets_eq_ok_iff.1 hr)
  | error e =>
    obtain ⟨m, hm, rfl⟩ := leastNegative_of_error hr
    rw [hm.unique hn]

/-- The regions of a configuration and their initial contents. -/
def tables (c : Configuration) : List (Region × MemoryTable) :=
  [(.global, c.globalMemory), (.stack, c.stackMemory), (.heap, c.heapMemory)]

theorem mem_tables_iff {region : Region} {t : MemoryTable} :
    (region, t) ∈ tables c ↔ c.memory region = .ok t := by
  cases region with
  | _ => simp [tables, Configuration.memory, eq_comm]

/-- The checks of all extents, region by region. -/
def memoryVerdict (c : Configuration) : Except Fault Unit :=
  (tables c).forM fun e => e.2.entries.forM offsetVerdict

theorem memory_eq_ok_iff :
    memoryVerdict c = .ok () ↔ ∀ region t, c.memory region = .ok t → ¬HasNegative t := by
  rw [memoryVerdict, forM_eq_ok_iff]
  constructor
  · intro hok region t ht
    exact offsets_eq_ok_iff.1 (hok (region, t) (mem_tables_iff.2 ht))
  · rintro hnone ⟨region, t⟩ hm
    exact offsets_eq_ok_iff.2 (hnone region t (mem_tables_iff.1 hm))

/-- The region that is blamed is the first one that has a negative offset. -/
theorem memory_eq_error_iff :
    memoryVerdict c = .error e ↔
      ∃ region t n, FirstNegative c region t ∧ LeastNegative t n ∧ e = .negativeOffset n := by
  have sorted : (tables c).Pairwise fun a b => a.1.code < b.1.code := by
    simp [tables, Region.code]
  rw [memoryVerdict, forM_eq_error_iff (fun h => UInt32.lt_asymm h) sorted]
  constructor
  · rintro ⟨⟨region, t⟩, hm, he, hfirst⟩
    obtain ⟨n, hn, rfl⟩ := offsets_eq_error_iff.1 he
    refine ⟨region, t, n, ⟨mem_tables_iff.1 hm, fun region' t' ht' hneg => ?_⟩, hn, rfl⟩
    exact (hfirst _ (mem_tables_iff.2 ht') fun hok => offsets_eq_ok_iff.1 hok hneg).imp_left
      (congrArg Prod.fst)
  · rintro ⟨region, t, n, ⟨ht, hfirst⟩, hn, rfl⟩
    refine ⟨(region, t), mem_tables_iff.2 ht, offsets_eq_error_iff.2 ⟨n, hn, rfl⟩, ?_⟩
    rintro ⟨region', t'⟩ hm hfails
    have ht' := mem_tables_iff.1 hm
    have hneg : HasNegative t' := by
      by_contra hneg
      exact hfails (offsets_eq_ok_iff.2 hneg)
    refine (hfirst region' t' ht' hneg).imp_left ?_
    rintro rfl
    rw [ht] at ht'
    rw [Except.ok.inj ht']

/-! ## The whole configuration -/

theorem verdict_eq (c : Configuration) :
    verdict c = (c.contents.entries.forM (registerVerdict c.registers) >>= fun _ =>
      memoryVerdict c) := by
  have hlast : memoryVerdict c = (c.globalMemory.entries.forM offsetVerdict >>= fun _ =>
      c.stackMemory.entries.forM offsetVerdict >>= fun _ =>
        c.heapMemory.entries.forM offsetVerdict >>= fun _ => pure ()) := rfl
  rw [hlast, bind_pure_unit]
  rfl

theorem blames_refusal {name : String} {i : Initializer} (h : FirstUnfit c name i) :
    Blames c (refusal name i) (refusal name i).body := by
  obtain ⟨content, taint⟩ := i
  cases content with
  | exact v => exact .width h nofun
  | masked v m => exact .width h nofun
  | bytes pattern => exact .bytes h

/-- A configuration fails with the one failure that it gives cause for. -/
theorem verdict_eq_error_iff (h : c.WF) : verdict c = .error e ↔ Blames c e e.body := by
  rw [verdict_eq, seq_eq_error_iff, registers_eq_error_iff h, registers_eq_ok_iff h,
    memory_eq_error_iff]
  constructor
  · rintro (⟨name, i, hi, rfl⟩ | ⟨hnone, region, t, n, ht, hn, rfl⟩)
    · exact blames_refusal hi
    · exact .address hnone ht hn
  · intro hb
    cases hb with
    | bytes hi => exact .inl ⟨_, _, hi, rfl⟩
    | @width name i hi hcontent =>
      refine .inl ⟨name, i, hi, ?_⟩
      obtain ⟨content, taint⟩ := i
      cases content with
      | bytes pattern => exact absurd rfl (hcontent pattern)
      | _ => rfl
    | address hnone ht hn => exact .inr ⟨hnone, _, _, _, ht, hn, rfl⟩

theorem value_eq_error_iff (h : c.WF) : value c = .error e ↔ verdict c = .error e := by
  rw [value_eq h]
  cases verdict c with
  | ok u => exact ⟨(nomatch ·), (nomatch ·)⟩
  | error e => simp [Except.map]

/-- There is an initial value if all contents fit and no offset is negative. -/
theorem verdict_eq_ok_iff (h : c.WF) :
    verdict c = .ok () ↔ ¬((∃ name i, UnfitAt c name i) ∨
      ∃ region t, c.memory region = .ok t ∧ HasNegative t) := by
  rw [verdict_eq, seq_eq_ok_iff, registers_eq_ok_iff h, memory_eq_ok_iff, not_or]
  simp only [not_exists, not_and]

/-- Configurations that some steps make, whether or not all of them succeed. There is no initial
value exactly if some content does not fit its register or some offset is negative; the failure is
the one that `Blames` says. No register is missing, and no region is unknown. -/
theorem value_fails_iff (ss : List Step) :
    ((∃ e, value (configured ss) = .error e) ↔
      (∃ name i, UnfitAt (configured ss) name i) ∨
        ∃ region t, (configured ss).memory region = .ok t ∧ HasNegative t) ∧
    (∀ e, value (configured ss) = .error e ↔ Blames (configured ss) e e.body) ∧
    (∀ name, value (configured ss) ≠ .error (.undeclaredRegister name) ∧
      value (configured ss) ≠ .error (.registerNotAdded name)) ∧
    ∀ code, value (configured ss) ≠ .error (.unexpectedRegion code) := by
  obtain ⟨-, wf⟩ := Configuration.holds_configured ss
  have hiff (e) : value (configured ss) = .error e ↔ Blames (configured ss) e e.body :=
    (value_eq_error_iff wf).trans (verdict_eq_error_iff wf)
  refine ⟨?_, hiff, fun name => ⟨?_, ?_⟩, fun code => ?_⟩
  · rw [← not_iff_not, ← verdict_eq_ok_iff wf, value_eq wf]
    cases verdict (configured ss) with
    | ok u => simp [Except.map]
    | error e => simp [Except.map]
  · rw [ne_eq, hiff]
    rintro ⟨⟩
  · rw [ne_eq, hiff]
    rintro ⟨⟩
  · rw [ne_eq, hiff]
    rintro ⟨⟩

end InitialValue

end FlowAutomaton
