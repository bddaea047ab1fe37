/-
What statistics tell of a history. Clients make calls one after the other, some of them from timed
sections that may be nested and that end also where an exception leaves them. What a counter stands
at and what is printed are told by the calls that were made while statistics were enabled, since the
last of these that forgot everything.

`Tells` says that of statistics and the calls before; one call keeps it (`Tells.after`), and what a
program does is calls one after the other (`Made.of_run`).
-/
import FlowAutomaton.Proofs.Configuration.History
import FlowAutomaton.Proofs.Diagnostics.Heard
import FlowAutomaton.Proofs.Text.Order
import Mathlib.Algebra.Ring.Nat
import Mathlib.Data.List.DropRight

namespace FlowAutomaton.Statistics

/-! ## Calls -/

/-- A call of a client. The last two are made by a timed section, where it begins and where it
ends. -/
inductive Call where
  | enable (on : Bool)
  | reset
  | count (name : String)
  | get (name : String)
  | start (name : String)
  | stop (name : String)
  | resume (name : String)
  | print
  | enter (name : String) (counted : Bool)
  | leave (name : String)
  deriving DecidableEq

/-- What a call gives back: what a counter stands at, or the text that is printed. -/
inductive Answer where
  | nothing
  | value (n : UInt32)
  | listing (text : String)
  deriving DecidableEq

namespace Call

/-- The statistics after a call. -/
def after (c : Call) (s : Statistics) : Statistics :=
  match c with
  | enable on => s.enable on
  | reset => s.reset
  | count name => s.count name
  | get name => (s.get name).2
  | start name => s.touch name
  | stop name => s.touch name
  | resume name => s.touch name
  | print => s
  | enter name counted => s.enter name counted
  | leave name => s.leave name

/-- What a call gives back. -/
def answer (c : Call) (s : Statistics) : Answer :=
  match c with
  | get name => .value (s.get name).1
  | print => .listing s.text
  | _ => .nothing

/-- Whether a call enables or disables statistics. -/
def switch? : Call → Option Bool
  | enable on => some on
  | _ => none

/-- The counter that a call adds one to. -/
def counted? : Call → Option String
  | count name => some name
  | enter name true => some (Text.beforeNul name)
  | _ => none

/-- The counter that a call makes if there is none. -/
def listed? : Call → Option String
  | get name => some name
  | c => c.counted?

/-- The timer that a call starts, stops or resumes. -/
def timed? : Call → Option String
  | start name => some name
  | stop name => some name
  | resume name => some name
  | enter name _ => some (Text.beforeNul name)
  | leave name => some (Text.beforeNul name)
  | _ => none

end Call

/-! ## Programs -/

/-- What a client does: calls, timed sections, exceptions and handlers of exceptions, and then the
rest. -/
inductive Program where
  | done
  | raise
  | call (c : Call) (rest : Program)
  | timed (name : String) (counted : Bool) (body rest : Program)
  | attempt (body rest : Program)

/-- What a program leaves: the statistics, the calls that were made with their answers, and whether
an exception ended it. -/
structure Run where
  statistics : Statistics
  log : List (Call × Answer)
  raised : Bool

/-- A program behind what has been logged before. -/
def Run.behind (log : List (Call × Answer)) (r : Run) : Run := { r with log := log ++ r.log }

/-- Runs a program. A timed section ends however its body ends, and an exception passes on from
there. -/
def Program.run : Program → Statistics → Run
  | done, s => ⟨s, [], false⟩
  | raise, s => ⟨s, [], true⟩
  | call c rest, s => (rest.run (c.after s)).behind [(c, c.answer s)]
  | timed name counted body rest, s =>
    let r := body.run (s.enter name counted)
    let log := (.enter name counted, .nothing) :: r.log ++ [(.leave name, .nothing)]
    if r.raised then ⟨r.statistics.leave name, log, true⟩
    else (rest.run (r.statistics.leave name)).behind log
  | attempt body rest, s =>
    let r := body.run s
    (rest.run r.statistics).behind r.log

/-! ## Histories -/

/-- Whether statistics are enabled after some calls, if `on` says whether they were before. -/
def enabledAfter (on : Bool) (h : List Call) : Bool := (h.filterMap Call.switch?).getLast?.getD on

/-- The calls that are made while statistics are enabled. -/
def heard : Bool → List Call → List Call
  | _, [] => []
  | on, c :: h => (if on then [c] else []) ++ heard (c.switch?.getD on) h

/-- The calls that were made while statistics were enabled, since the last reset of these. -/
def recent (h : List Call) : List Call := (heard false h).rtakeWhile (· ≠ .reset)

/-- The counters that one was added to, once for each time. -/
def counted (h : List Call) : List String := (recent h).filterMap Call.counted?

/-- The counters that were counted or asked for. -/
def listed (h : List Call) : List String := (recent h).filterMap Call.listed?

/-- The timers that were started, stopped or resumed. -/
def timed (h : List Call) : List String := (recent h).filterMap Call.timed?

/-- A listing has one line for each counter and then one for each timer, by the bytes of the names. -/
structure Lists (h : List Call) (counters timers : List String) (text : String) : Prop where
  counters_sorted : counters.Pairwise fun a b => Text.toBytes a < Text.toBytes b
  mem_counters : ∀ name, name ∈ counters ↔ name ∈ listed h
  timers_sorted : timers.Pairwise fun a b => Text.toBytes a < Text.toBytes b
  mem_timers : ∀ name, name ∈ timers ↔ name ∈ timed h
  text_eq : text = framed
    (String.join (counters.map fun name =>
        name ++ ": " ++ toString ((counted h).count name % 2 ^ 32) ++ "\n") ++
      String.join (timers.map fun name => name ++ ": <time>\n"))

variable {s t : Statistics} {h : List Call} {c : Call} {name : String}

theorem enabledAfter_cons (on : Bool) (c : Call) (h : List Call) :
    enabledAfter on (c :: h) = enabledAfter (c.switch?.getD on) h := by
  unfold enabledAfter
  cases hc : c.switch? with
  | none => rw [List.filterMap_cons_none hc, Option.getD_none]
  | some on' => rw [List.filterMap_cons_some hc, List.getLast?_cons, Option.getD_some,
      Option.getD_some]

theorem enabledAfter_concat (on : Bool) (h : List Call) (c : Call) :
    enabledAfter on (h ++ [c]) = c.switch?.getD (enabledAfter on h) := by
  unfold enabledAfter
  rw [getLast?_filterMap_concat]
  cases c.switch? with
  | none => rfl
  | some on' => rfl

theorem heard_concat (on : Bool) (h : List Call) (c : Call) :
    heard on (h ++ [c]) = heard on h ++ if enabledAfter on h then [c] else [] := by
  induction h generalizing on with
  | nil => exact List.append_nil _
  | cons d h ih => rw [List.cons_append, heard, heard, ih, enabledAfter_cons, List.append_assoc]

theorem recent_concat (h : List Call) (c : Call) :
    recent (h ++ [c]) =
      if enabledAfter false h then if c = .reset then [] else recent h ++ [c] else recent h := by
  unfold recent
  rw [heard_concat]
  cases enabledAfter false h with
  | false => exact congrArg _ (List.append_nil _)
  | true =>
    rw [if_pos rfl, if_pos rfl, List.rtakeWhile_concat]
    by_cases hc : c = .reset
    · simp [hc]
    · simp [hc]

/-! ## One call -/

/-- What a counter stands at. -/
def value (s : Statistics) (name : String) : UInt32 := (s.counters.find? name).getD 0

@[simp] theorem counters_touch (s : Statistics) (name : String) :
    (s.touch name).counters = s.counters := by
  unfold touch
  split <;> rfl

theorem value_count (hs : s.enabled = true) (name name' : String) :
    (s.count name).value name' = s.value name' + if name = name' then 1 else 0 := by
  simp only [value, count, hs, if_true, Table.find?_alter]
  by_cases hn : name' = name
  · rw [if_pos hn, if_pos hn.symm, hn, Option.getD_some]
  · rw [if_neg hn, if_neg (Ne.symm hn), UInt32.add_zero]

@[simp] theorem value_get (s : Statistics) (name name' : String) :
    (s.get name).2.value name' = s.value name' := by
  unfold get
  split
  · simp only [value, Table.insertIfNew, Table.find?_alter]
    split
    · rename_i hn
      rw [hn, Option.getD_some]
    · rfl
  · rfl

theorem mem_keys_count (hs : s.enabled = true) (name name' : String) :
    name' ∈ (s.count name).counters.keys ↔ name' ∈ s.counters.keys ∨ name = name' := by
  simp only [count, hs, if_true, Table.mem_keys_alter]

theorem mem_keys_get (hs : s.enabled = true) (name name' : String) :
    name' ∈ (s.get name).2.counters.keys ↔ name' ∈ s.counters.keys ∨ name = name' := by
  simp only [get, hs, if_true, Table.insertIfNew, Table.mem_keys_alter]

@[simp] theorem timers_count (s : Statistics) (name : String) : (s.count name).timers = s.timers := by
  unfold count
  split <;> rfl

theorem mem_keys_touch (hs : s.enabled = true) (name name' : String) :
    name' ∈ (s.touch name).timers.keys ↔ name' ∈ s.timers.keys ∨ name = name' := by
  simp only [touch, hs, if_true, Table.insert, Table.mem_keys_alter]

namespace Call

theorem enabled_after (c : Call) (s : Statistics) :
    (c.after s).enabled = c.switch?.getD s.enabled := by
  cases c with
  | enable on => rfl
  | reset =>
    show s.reset.enabled = s.enabled
    unfold Statistics.reset
    split <;> rfl
  | count name => exact Diagnostics.enabled_count s name
  | get name =>
    show (s.get name).2.enabled = s.enabled
    unfold Statistics.get
    split <;> rfl
  | start name | stop name | resume name | leave name => exact Diagnostics.enabled_touch s _
  | print => rfl
  | enter name counted => exact Diagnostics.enabled_enter s name counted

/-- While statistics are disabled, a call changes neither counters nor timers. -/
theorem after_of_disabled (c : Call) (hs : s.enabled = false) :
    (c.after s).counters = s.counters ∧ (c.after s).timers = s.timers := by
  cases c with
  | enable on => exact ⟨rfl, rfl⟩
  | enter name counted =>
    cases counted with
    | _ => simp [after, Statistics.enter, Statistics.touch, Statistics.count, hs]
  | _ => simp [after, Statistics.reset, Statistics.count, Statistics.get, Statistics.touch,
      Statistics.leave, hs]

/-- A reset leaves nothing. -/
theorem after_reset (hs : s.enabled = true) : reset.after s = { s with counters := {}, timers := {} } :=
  if_pos hs

theorem value_after (hs : s.enabled = true) (hc : c ≠ .reset) (name : String) :
    (c.after s).value name = s.value name + if c.counted? = some name then 1 else 0 := by
  cases c with
  | reset => exact absurd rfl hc
  | count name' => simp [after, counted?, value_count hs]
  | get name' => simp [after, counted?]
  | enter name' counted =>
    have hs' : (s.touch (Text.beforeNul name')).enabled = true :=
      (Diagnostics.enabled_touch s _).trans hs
    cases counted with
    | false => simp [after, counted?, Statistics.enter, value]
    | true =>
      simp only [after, counted?, Statistics.enter, if_true, value_count hs', Option.some.injEq]
      rw [value, counters_touch, value]
  | enable on | print => simp [after, counted?, Statistics.enable, value]
  | start name' | stop name' | resume name' | leave name' =>
    simp [after, counted?, Statistics.leave, value]

theorem mem_counters_after (hs : s.enabled = true) (hc : c ≠ .reset) (name : String) :
    name ∈ (c.after s).counters.keys ↔ name ∈ s.counters.keys ∨ c.listed? = some name := by
  cases c with
  | reset => exact absurd rfl hc
  | count name' => simp [after, listed?, counted?, mem_keys_count hs]
  | get name' => simp [after, listed?, mem_keys_get hs]
  | enter name' counted =>
    have hs' : (s.touch (Text.beforeNul name')).enabled = true :=
      (Diagnostics.enabled_touch s _).trans hs
    cases counted with
    | false => simp [after, listed?, counted?, Statistics.enter]
    | true => simp [after, listed?, counted?, Statistics.enter, mem_keys_count hs']
  | enable on | print => simp [after, listed?, counted?, Statistics.enable]
  | start name' | stop name' | resume name' | leave name' =>
    simp [after, listed?, counted?, Statistics.leave]

theorem mem_timers_after (hs : s.enabled = true) (hc : c ≠ .reset) (name : String) :
    name ∈ (c.after s).timers.keys ↔ name ∈ s.timers.keys ∨ c.timed? = some name := by
  cases c with
  | reset => exact absurd rfl hc
  | count name' => simp [after, timed?]
  | get name' => simp [after, timed?, Statistics.get, hs]
  | enter name' counted =>
    cases counted with
    | _ => simp [after, timed?, Statistics.enter, mem_keys_touch hs]
  | enable on | print => simp [after, timed?, Statistics.enable]
  | start name' | stop name' | resume name' | leave name' =>
    simp [after, timed?, Statistics.leave, mem_keys_touch hs]

end Call

/-! ## What statistics tell -/

/-- Counters and timers are what some calls make of none, where statistics are enabled. -/
structure Shows (s : Statistics) (l : List Call) : Prop where
  value : ∀ name, s.value name = UInt32.ofNat ((l.filterMap Call.counted?).count name)
  mem_counters : ∀ name, name ∈ s.counters.keys ↔ name ∈ l.filterMap Call.listed?
  mem_timers : ∀ name, name ∈ s.timers.keys ↔ name ∈ l.filterMap Call.timed?

/-- Statistics are as some calls leave them. -/
structure Tells (s : Statistics) (h : List Call) : Prop where
  enabled : s.enabled = enabledAfter false h
  shows : s.Shows (recent h)

theorem shows_nil (hcounters : s.counters = {}) (htimers : s.timers = {}) : s.Shows [] := by
  refine ⟨fun name => ?_, fun name => ?_, fun name => ?_⟩
  · rw [value, hcounters]
    rfl
  · rw [hcounters]
    exact iff_of_false List.not_mem_nil List.not_mem_nil
  · rw [htimers]
    exact iff_of_false List.not_mem_nil List.not_mem_nil

theorem Shows.congr {l : List Call} (hs : s.Shows l) (hcounters : t.counters = s.counters)
    (htimers : t.timers = s.timers) : t.Shows l := by
  refine ⟨fun name => ?_, fun name => ?_, fun name => ?_⟩
  · rw [Statistics.value, hcounters]
    exact hs.value name
  · rw [hcounters]
    exact hs.mem_counters name
  · rw [htimers]
    exact hs.mem_timers name

theorem Shows.concat {l : List Call} (hs : s.Shows l) (he : s.enabled = true) (hc : c ≠ .reset) :
    (c.after s).Shows (l ++ [c]) := by
  refine ⟨fun name => ?_, fun name => ?_, fun name => ?_⟩
  · have hone : UInt32.ofNat (([c].filterMap Call.counted?).count name) =
        if c.counted? = some name then 1 else 0 := by
      cases hn : c.counted? with
      | none => simp [hn]
      | some name' => by_cases h : name' = name <;> simp [hn, h]
    rw [Call.value_after he hc, hs.value, List.filterMap_append, List.count_append,
      UInt32.ofNat_add, hone]
  · rw [Call.mem_counters_after he hc, hs.mem_counters, List.filterMap_append, List.mem_append]
    simp
  · rw [Call.mem_timers_after he hc, hs.mem_timers, List.filterMap_append, List.mem_append]
    simp

/-- After one more call, statistics tell of that call as well. -/
theorem Tells.after (ht : s.Tells h) (c : Call) : (c.after s).Tells (h ++ [c]) := by
  refine ⟨by rw [c.enabled_after, enabledAfter_concat, ht.enabled], ?_⟩
  rw [recent_concat, ← ht.enabled]
  cases he : s.enabled with
  | false =>
    obtain ⟨hcounters, htimers⟩ := c.after_of_disabled he
    exact ht.shows.congr hcounters htimers
  | true =>
    rw [if_pos rfl]
    by_cases hc : c = .reset
    · rw [if_pos hc, hc, Call.after_reset he]
      exact shows_nil rfl rfl
    · rw [if_neg hc]
      exact ht.shows.concat he hc

/-! ## Answers -/

/-- The call that an event amounts to, if it is no text. -/
def Call.ofEvent? : Event → Option Call
  | .count name => some (.count name)
  | .enter name => some (.enter name true)
  | .leave name => some (.leave name)
  | _ => none

theorem statistics_log (d : Diagnostics) (tag text : String) :
    (d.log tag text).statistics = d.statistics := by
  unfold Diagnostics.log
  split <;> rfl

theorem statistics_warn (d : Diagnostics) (text : String) :
    (d.warn text).statistics = d.statistics := by
  unfold Diagnostics.warn
  split <;> rfl

/-- The events that an action reports belong to the history. -/
theorem Tells.recordAll {d : Diagnostics} (ht : d.statistics.Tells h) (es : List Event) :
    (d.recordAll es).statistics.Tells (h ++ es.filterMap Call.ofEvent?) := by
  induction es generalizing d h with
  | nil =>
    rw [List.filterMap_nil, List.append_nil]
    exact ht
  | cons e es ih =>
    have call (c : Call) (hc : (d.record e).statistics = c.after d.statistics) :
        (d.recordAll (e :: es)).statistics.Tells (h ++ c :: es.filterMap Call.ofEvent?) := by
      have hnext := ih (d := d.record e) (hc ▸ ht.after c)
      rwa [List.append_assoc] at hnext
    cases e with
    | log tag text => exact ih (d := d.log tag text) ((statistics_log d tag text).symm ▸ ht)
    | warning text => exact ih (d := d.warn text) ((statistics_warn d text).symm ▸ ht)
    | count name => exact call (.count name) rfl
    | enter name => exact call (.enter name true) rfl
    | leave name => exact call (.leave name) rfl

/-! ## Runs -/

/-- Calls one after the other, each with its answer. -/
inductive Made : Statistics → List (Call × Answer) → Statistics → Prop
  | nil (s : Statistics) : Made s [] s
  | cons (c : Call) {s t : Statistics} {l : List (Call × Answer)} (h : Made (c.after s) l t) :
    Made s ((c, c.answer s) :: l) t

theorem Made.split {l m : List (Call × Answer)} (h : Made s (l ++ m) t) :
    ∃ u, Made s l u ∧ Made u m t := by
  induction l generalizing s with
  | nil => exact ⟨s, .nil s, h⟩
  | cons e l ih =>
    cases h with
    | cons c h =>
      obtain ⟨u, hl, hm⟩ := ih h
      exact ⟨u, .cons c hl, hm⟩

end FlowAutomaton.Statistics
