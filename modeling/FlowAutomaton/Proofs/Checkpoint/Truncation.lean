/-
Checkpoints that are cut short. Whatever fields a file holds, reading them fails because they are
too few, or ends as it would with any more fields behind them (`restore_prompt`): no reader looks
beyond the fields that it takes, so none can tell a shorter checkpoint from the longer one that it
was cut from. The fields of a saved automaton are all taken, so no proper prefix of them is read as
an automaton, wherever the cut is, in the middle of a value or between two of them.
-/
import FlowAutomaton.Proofs.Checkpoint.RoundTrip

namespace FlowAutomaton

namespace Checkpoint

variable {α β : Type}

/-! ## Readers and further fields -/

/-- What was read, with further fields behind the rest. -/
def withMore (more : List Field) (r : α × List Field) : α × List Field := (r.1, r.2 ++ more)

/-- A reader that looks at no more fields than it takes: where it does not fail for want of fields,
it ends in the same way with any further fields, which it leaves over. -/
def Reader.Prompt (r : Reader α) : Prop :=
  ∀ fs, r.run fs = .error .incomplete ∨
    ∀ more, r.run (fs ++ more) = (r.run fs).map (withMore more)

namespace Reader.Prompt

theorem pure (a : α) : Prompt (pure a : Reader α) := fun _ => .inr fun _ => rfl

theorem throw (d : Damage) : Prompt (throw d : Reader α) := fun _ => .inr fun _ => rfl

theorem bind {r : Reader α} {f : α → Reader β} (hr : r.Prompt) (hf : ∀ a, (f a).Prompt) :
    (r >>= f).Prompt := by
  intro fs
  rw [StateT.run_bind]
  rcases hr fs with h | h
  · rw [h]
    exact .inl rfl
  cases hrun : r.run fs with
  | error d =>
    refine .inr fun more => ?_
    rw [StateT.run_bind, h more, hrun]
    rfl
  | ok x =>
    obtain ⟨a, rest⟩ := x
    rcases hf a rest with h' | h'
    · exact .inl h'
    · refine .inr fun more => ?_
      rw [StateT.run_bind, h more, hrun]
      exact h' more

theorem map {r : Reader α} (hr : r.Prompt) (f : α → β) : (f <$> r).Prompt := by
  rw [← bind_pure_comp]
  exact hr.bind fun a => pure (f a)

theorem ite {c : Prop} [Decidable c] {r s : Reader α} (hr : r.Prompt) (hs : s.Prompt) :
    (if c then r else s).Prompt := by
  split
  · exact hr
  · exact hs

theorem field (f : Field → Except Damage α) : (Reader.field f).Prompt := by
  intro fs
  cases fs with
  | nil => exact .inl rfl
  | cons x rest =>
    refine .inr fun more => ?_
    show (f x).map (·, rest ++ more) = ((f x).map (·, rest)).map (withMore more)
    cases f x <;> rfl

theorem times {r : Reader α} (hr : r.Prompt) : ∀ n, (Reader.times r n).Prompt
  | 0 => pure []
  | n + 1 => hr.bind fun a => (times hr n).bind fun rest => pure (a :: rest)

/-- Where a reader takes all of some fields, it cannot do without the last of them. -/
theorem incomplete_of_prefix {r : Reader α} (hr : r.Prompt) {p q : List Field} {a : α}
    (h : r.run (p ++ q) = .ok (a, [])) (hq : q ≠ []) : r.run p = .error .incomplete := by
  rcases hr p with hp | hp
  · exact hp
  have hmore := (hp q).symm.trans h
  cases hrun : r.run p with
  | error d =>
    rw [hrun] at hmore
    cases hmore
  | ok x =>
    rw [hrun] at hmore
    have hrest : x.2 ++ q = [] := congrArg Prod.snd (Except.ok.inj hmore)
    exact absurd (List.append_eq_nil_iff.1 hrest).2 hq

end Reader.Prompt

/-! ## Stored types -/

/-- Types of which the reader looks at no more fields than it takes. -/
class PromptStorable (α : Type) [Storable α] : Prop where
  prompt : (read : Reader α).Prompt

export PromptStorable (prompt)

open Reader (Prompt)

instance : PromptStorable Bool := ⟨.field _⟩

instance : PromptStorable UInt8 := ⟨.field _⟩

instance : PromptStorable UInt32 := ⟨.field _⟩

instance : PromptStorable UInt64 := ⟨.field _⟩

instance : PromptStorable Nat := ⟨.field _⟩

instance : PromptStorable String := ⟨.field _⟩

instance [Storable α] [Storable β] [PromptStorable α] [PromptStorable β] :
    PromptStorable (α × β) :=
  ⟨prompt.bind fun a => prompt.bind fun b => .pure (a, b)⟩

instance [Storable α] [PromptStorable α] : PromptStorable (Option α) :=
  ⟨(prompt (α := Bool)).bind fun _ => .ite (prompt.map some) (.pure none)⟩

instance [Storable α] [PromptStorable α] : PromptStorable (List α) :=
  ⟨(prompt (α := Nat)).bind fun n => .times prompt n⟩

instance {κ υ : Type} [Ord κ] [Std.TransOrd κ] [Storable κ] [Storable υ] [PromptStorable κ]
    [PromptStorable υ] : PromptStorable (Table κ υ) :=
  ⟨(prompt (α := List (κ × υ))).bind fun _ => .pure _⟩

instance : PromptStorable Int where
  prompt := by
    refine (prompt (α := String)).bind fun s => ?_
    cases Numeral.parse 16 s with
    | ok n => exact .pure n
    | error e => exact .throw (.invalid e)

instance : PromptStorable Region := ⟨prompt.map Region.ofCode⟩

instance : PromptStorable Address :=
  ⟨prompt.bind fun _ => prompt.bind fun _ => prompt.bind fun _ => .pure _⟩

instance : PromptStorable Statement :=
  ⟨prompt.bind fun _ => prompt.bind fun _ => prompt.bind fun _ => .pure _⟩

instance : PromptStorable Content :=
  ⟨prompt.bind fun _ => .ite (prompt.bind fun _ => .pure _)
    (.ite (prompt.bind fun _ => prompt.bind fun _ => .pure _)
      (.ite (prompt.bind fun _ => .pure _) (.throw .incomplete)))⟩

instance : PromptStorable Taint :=
  ⟨prompt.bind fun _ => .ite (prompt.bind fun _ => .pure _)
    (.ite (prompt.bind fun _ => prompt.bind fun _ => .pure _) (.throw .incomplete))⟩

instance : PromptStorable RegisterCell :=
  ⟨prompt.bind fun _ => prompt.bind fun _ => prompt.bind fun _ => prompt.bind fun _ => .pure _⟩

instance : PromptStorable MemoryCell :=
  ⟨prompt.bind fun _ => prompt.bind fun _ => prompt.bind fun _ => .pure _⟩

instance : PromptStorable Location := ⟨prompt.bind fun _ => prompt.bind fun _ => .pure _⟩

instance : PromptStorable Value := ⟨prompt.bind fun _ => prompt.bind fun _ => .pure _⟩

instance : PromptStorable DecodingContext := ⟨prompt.bind fun _ => prompt.bind fun _ => .pure _⟩

instance : PromptStorable State :=
  ⟨prompt.bind fun _ => prompt.bind fun _ => prompt.bind fun _ => prompt.bind fun _ =>
    prompt.bind fun _ => prompt.bind fun _ => prompt.bind fun _ => prompt.bind fun _ =>
    prompt.bind fun _ => prompt.bind fun _ => prompt.bind fun _ => .pure _⟩

/-! ## Restoring -/

/-- An action on some fields, and the same action on these with further fields behind them: it
fails because they are too few, or the other one does the same and answers what `leave` says. -/
def PromptAction (path : String) (x : Action Graph α) (y : List Field → Action Graph α)
    (leave : List Field → α → α) : Prop :=
  ∀ g, (x.run g).result = .error (.unreadable path) ∨
    ∀ more, (y more).run g = (leave more <$> x).run g

namespace PromptAction

variable {path : String}

theorem same (x : Action Graph α) : PromptAction path x (fun _ => x) fun _ a => a := by
  intro g
  right
  intro more
  show x.run g = (id <$> x).run g
  rw [id_map]

theorem bind {x : Action Graph α} {y : List Field → Action Graph α} {leave : List Field → α → α}
    {f : α → Action Graph β} {k : List Field → α → Action Graph β} {leave' : List Field → β → β}
    (hx : PromptAction path x y leave)
    (hf : ∀ a, PromptAction path (f a) (fun more => k more (leave more a)) leave') :
    PromptAction path (x >>= f) (fun more => y more >>= k more) leave' := by
  intro g
  rw [Action.run_bind]
  rcases hx g with h | h
  · rw [h]
    exact .inl rfl
  cases hrun : (x.run g).result with
  | error e =>
    right
    intro more
    rw [Action.run_bind, h more, Action.run_map, Action.run_map, Action.run_bind, hrun]
    rfl
  | ok a =>
    rcases hf a (x.run g).state with h' | h'
    · exact .inl h'
    · right
      intro more
      rw [Action.run_bind, h more, Action.run_map, Action.run_map, Action.run_bind, hrun]
      show Outcome.mk _ _ _ = _
      rw [h' more, Action.run_map]

theorem next [Storable α] [PromptStorable α] (fs : List Field) :
    PromptAction path (Checkpoint.next path α fs) (fun more => Checkpoint.next path α (fs ++ more))
      withMore := by
  intro g
  rcases prompt (α := α) fs with h | h
  · left
    rw [Checkpoint.next, h]
    rfl
  · right
    intro more
    show (Checkpoint.next path α (fs ++ more)).run g = _
    rw [Action.run_map, Checkpoint.next, Checkpoint.next, h more]
    cases (read : Reader α).run fs with
    | ok r => rfl
    | error d => cases d <;> rfl

end PromptAction

/-- Reading states looks at no more fields than it takes. -/
theorem promptAction_restoreStates (path : String) (n : Nat) (fs : List Field) :
    PromptAction path (restoreStates path n fs) (fun more => restoreStates path n (fs ++ more))
      fun more rest => rest ++ more := by
  induction n generalizing fs with
  | zero => exact fun g => .inr fun more => rfl
  | succ n ih =>
    apply PromptAction.bind (PromptAction.next fs)
    rintro ⟨s, rest⟩
    exact PromptAction.bind (PromptAction.same (Graph.add s)) fun v => ih rest

theorem promptAction_restoreEdges (path : String) (n : Nat) (fs : List Field) :
    PromptAction path (restoreEdges path n fs) (fun more => restoreEdges path n (fs ++ more))
      fun more rest => rest ++ more := by
  induction n generalizing fs with
  | zero => exact fun g => .inr fun more => rfl
  | succ n ih =>
    apply PromptAction.bind (PromptAction.next fs)
    rintro ⟨e, rest⟩
    exact PromptAction.bind (PromptAction.same (restoreEdge path e)) fun u => ih rest

/-- Whatever fields are restored, they are too few, or any further fields make no difference: the
answer or the failure, the automaton and what is reported are the same. -/
theorem restore_prompt (path : String) (fs : List Field) (g : Graph) :
    ((restore path fs).run g).result = .error (.unreadable path) ∨
      ∀ more, (restore path (fs ++ more)).run g = (restore path fs).run g := by
  have hp : PromptAction path (restore path fs) (fun more => restore path (fs ++ more))
      fun _ u => u := by
    apply PromptAction.bind (PromptAction.next fs)
    rintro ⟨n, fs₁⟩
    apply PromptAction.bind (promptAction_restoreStates path n fs₁)
    intro fs₂
    apply PromptAction.bind (PromptAction.next fs₂)
    rintro ⟨m, fs₃⟩
    apply PromptAction.bind (promptAction_restoreEdges path m fs₃)
    intro fs₄
    apply PromptAction.bind (PromptAction.next fs₄)
    rintro ⟨last, rest⟩
    exact PromptAction.same (restoreCounter path last)
  rcases hp g with h | h
  · exact .inl h
  · right
    intro more
    rw [h more]
    show (id <$> restore path fs).run g = _
    rw [id_map]

/-! ## Cuts -/

/-- Where all of some fields are needed, none of their proper prefixes can be read. -/
theorem Accepted.prefix_unreadable {fs p : List Field} {l : List State}
    {m : List (StateId × StateId)} {last : StateId} (h : Accepted fs l m last)
    (hall : (Storable.read : Reader (List State × List (StateId × StateId) × StateId)).run fs =
      .ok ((l, m, last), []))
    (hp : p <+: fs) (hne : p ≠ fs) (path : String) :
    ((restore path p).run {}).result = .error (.unreadable path) := by
  obtain ⟨q, rfl⟩ := hp
  have hq : q ≠ [] := by
    rintro rfl
    exact hne (List.append_nil p).symm
  rcases restore_prompt path p {} with hcut | hsame
  · exact hcut
  -- otherwise the prefix would be accepted as the whole is, but its values cannot be read
  · obtain ⟨k, es, hk, -⟩ := h.run_restore path
    rw [hsame q] at hk
    obtain ⟨l', m', last', ha⟩ := accepted_of_restore (by rw [hk])
    obtain ⟨rest, hread⟩ := ha.read
    rw [prompt.incomplete_of_prefix hall hq] at hread
    cases hread

end Checkpoint

namespace Stored

open FlowAutomaton.Checkpoint (Field)

theorem fieldsSize_cons (f : Field) (fs : List Field) :
    fieldsSize (f :: fs) = f.byteSize + fieldsSize fs := by
  have hacc : ∀ (l : List Field) (n : Nat),
      l.foldl (fun n f => n + f.byteSize) n = n + fieldsSize l := by
    intro l
    induction l with
    | nil => intro n; rfl
    | cons f l ih =>
      intro n
      have h := ih f.byteSize
      simp only [fieldsSize, List.foldl_cons, Nat.zero_add] at h ⊢
      rw [ih, h, Nat.add_assoc]
      rfl
  show fs.foldl _ (0 + f.byteSize) = _
  rw [Nat.zero_add, hacc]

/-- The fields that lie within some bytes are the first ones. -/
theorem fieldsWithin_prefix (n : Nat) (fs : List Field) : fieldsWithin n fs <+: fs := by
  induction fs generalizing n with
  | nil => exact List.nil_prefix
  | cons f fs ih =>
    rw [fieldsWithin]
    split
    · exact (List.prefix_cons_inj f).2 (ih _)
    · exact List.nil_prefix

theorem fieldsSize_fieldsWithin_le (n : Nat) (fs : List Field) :
    fieldsSize (fieldsWithin n fs) ≤ n := by
  induction fs generalizing n with
  | nil => exact Nat.zero_le n
  | cons f fs ih =>
    rw [fieldsWithin]
    split
    · have h := ih (n - f.byteSize)
      rw [fieldsSize_cons]
      omega
    · exact Nat.zero_le n

end Stored

namespace Checkpoint

open FileSystem (contents)

/-- A file with a part of the fields of an automaton cannot be loaded. Nor can one of which only
the first bytes are left, wherever it was cut. -/
theorem load_truncated {g : Graph} (h : g.WF)
    (hc : ∀ id, g.hasState id = true → id ≤ g.counter.last) {σ : Type} [FileSystem σ]
    {path : String} {st : σ} :
    (∀ p n, p <+: fields g → p ≠ fields g → contents path st = .ok (.checkpoint p n) →
      ((load path).run st).result = .error (.unreadable path)) ∧
    (∀ n, n < (Stored.checkpoint (fields g) 0).byteSize →
      contents path st = .ok ((Stored.checkpoint (fields g) 0).truncate n) →
      ((load path).run st).result = .error (.unreadable path)) := by
  have hcut : ∀ p n, p <+: fields g → p ≠ fields g → contents path st = .ok (.checkpoint p n) →
      ((load path).run st).result = .error (.unreadable path) := by
    intro p n hp hne hf
    rw [result_load_eq, hf]
    simp only
    rw [(accepted_fields h hc).prefix_unreadable (read_fields g) hp hne]
    rfl
  refine ⟨hcut, ?_⟩
  intro n hn hf
  apply hcut _ _ (Stored.fieldsWithin_prefix n (fields g)) _ hf
  intro he
  have hle := Stored.fieldsSize_fieldsWithin_le n (fields g)
  rw [he] at hle
  exact absurd hn (Nat.not_lt.2 hle)

/-- A vertex with an edge to itself, and registers and memory of several kinds. -/
def mixedPoint : Graph :=
  Graph.afterAll {}
    [.add { id := 7, value := mixedValue, statements := [.ret], bytes := [0xc3] }, .link 7 7]

/-- Its checkpoint without the counter, and the first bytes of its checkpoint, which are too few
even for the number of states. -/
def mixedPointCuts : Storage :=
  ⟨(({} : Table String Stored).insert "fields" (.checkpoint (fields mixedPoint).dropLast 0)).insert
    "bytes" ((Stored.checkpoint (fields mixedPoint) 0).truncate 7)⟩

theorem load_truncated_mixedPoint :
    mixedPoint.WF ∧ (∀ id, mixedPoint.hasState id = true → id ≤ mixedPoint.counter.last) ∧
      ((load "fields").run mixedPointCuts).result = .error (.unreadable "fields") ∧
      ((load "bytes").run mixedPointCuts).result = .error (.unreadable "bytes") := by
  have h : mixedPoint.WF := Graph.WF.empty.afterAll _
  have hle : ∀ id ∈ mixedPoint.vertices.keys, id ≤ mixedPoint.counter.last := by
    rw [show mixedPoint.vertices.keys = [7] from rfl]
    exact List.forall_mem_singleton.2 (by decide)
  have hc : ∀ id, mixedPoint.hasState id = true → id ≤ mixedPoint.counter.last :=
    fun id hi => hle id (Graph.mem_keys_iff.2 hi)
  have hsize : 7 < (Stored.checkpoint (fields mixedPoint) 0).byteSize := by
    show 7 < Stored.fieldsSize (.count (states mixedPoint).length :: _) + 0
    rw [Stored.fieldsSize_cons]
    show 7 < 8 + _ + 0
    omega
  have hne : (fields mixedPoint).dropLast ≠ fields mixedPoint := by
    intro he
    have hlen := congrArg List.length he
    have hpos : 0 < (fields mixedPoint).length := Nat.succ_pos _
    rw [List.length_dropLast] at hlen
    omega
  exact ⟨h, hc, (load_truncated h hc).1 _ 0 (List.dropLast_prefix _) hne rfl,
    (load_truncated h hc).2 7 hsize rfl⟩

end Checkpoint

end FlowAutomaton
