/-
What is heard of an action. Which events show or count anything depends on the settings of the
diagnostics alone, and no event changes the settings. Two actions are alike to some diagnostics if
they end alike, leave the same state, and report the same events as far as those are heard; this
is kept by everything that puts actions together.
-/
import FlowAutomaton.Diagnostics
import FlowAutomaton.Proofs.Action

namespace FlowAutomaton

/-! ## Settings -/

namespace Diagnostics

/-- What a client sets: the tags and the verbosity, and whether warnings are shown and statistics
are kept. -/
structure Settings where
  tags : List String
  verbosity : UInt32
  warnings : Bool
  statistics : Bool

/-- The settings of some diagnostics. -/
def settings (d : Diagnostics) : Settings :=
  ⟨d.tags, d.verbosity, d.warnings, d.statistics.enabled⟩

/-- Whether an event shows or counts anything. -/
def hears (d : Diagnostics) : Event → Bool
  | .log tag _ => tag ∈ d.tags
  | .warning _ => d.warnings
  | .count _ => d.statistics.enabled
  | .enter _ => d.statistics.enabled
  | .leave _ => d.statistics.enabled

theorem enabled_count (s : Statistics) (name : String) : (s.count name).enabled = s.enabled := by
  unfold Statistics.count
  split <;> rfl

theorem enabled_touch (s : Statistics) (name : String) : (s.touch name).enabled = s.enabled := by
  unfold Statistics.touch
  split <;> rfl

theorem enabled_enter (s : Statistics) (name : String) (counted : Bool) :
    (s.enter name counted).enabled = s.enabled := by
  unfold Statistics.enter
  simp only
  split
  · rw [enabled_count, enabled_touch]
  · exact enabled_touch s _

theorem settings_mapStatistics {d : Diagnostics} {f : Statistics → Statistics}
    (h : (f d.statistics).enabled = d.statistics.enabled) :
    (d.mapStatistics f).settings = d.settings := by
  rw [settings, mapStatistics, h]
  rfl

/-- No event changes the settings. -/
theorem settings_record (d : Diagnostics) (e : Event) : (d.record e).settings = d.settings := by
  cases e with
  | log tag text =>
    show (d.log tag text).settings = d.settings
    unfold log
    split <;> rfl
  | warning text =>
    show (d.warn text).settings = d.settings
    unfold warn
    split <;> rfl
  | count name => exact settings_mapStatistics (enabled_count d.statistics name)
  | enter name => exact settings_mapStatistics (enabled_enter d.statistics name true)
  | leave name => exact settings_mapStatistics (enabled_touch d.statistics _)

/-- However much is reported, the settings stay. -/
theorem settings_recordAll (d : Diagnostics) (es : List Event) :
    (d.recordAll es).settings = d.settings := by
  induction es generalizing d with
  | nil => rfl
  | cons e es ih => exact (ih (d.record e)).trans (d.settings_record e)

/-- What becomes of some events and then of others is what becomes of all of them. -/
theorem recordAll_append (d : Diagnostics) (es es' : List Event) :
    d.recordAll (es ++ es') = (d.recordAll es).recordAll es' :=
  List.foldl_append

/-! ## Events that are not heard -/

theorem hears_of_settings {d d' : Diagnostics} (h : d.settings = d'.settings) (e : Event) :
    d.hears e = d'.hears e := by
  rw [settings, settings, Settings.mk.injEq] at h
  obtain ⟨ht, -, hw, hs⟩ := h
  cases e with
  | log tag text => rw [hears, hears, ht]
  | warning text => exact hw
  | count name => exact hs
  | enter name => exact hs
  | leave name => exact hs

theorem mapStatistics_of_same {d : Diagnostics} {f : Statistics → Statistics}
    (h : f d.statistics = d.statistics) : d.mapStatistics f = d := by
  rw [mapStatistics, h]

/-- An event that is not heard leaves no trace. -/
theorem record_of_not_heard {d : Diagnostics} {e : Event} (h : d.hears e = false) :
    d.record e = d := by
  -- statistics that are not kept are left alone by every count and every timer
  have count (hs : d.statistics.enabled = false) (name : String) :
      d.statistics.count name = d.statistics := by
    rw [Statistics.count, hs]
    rfl
  have touch (hs : d.statistics.enabled = false) (name : String) :
      d.statistics.touch name = d.statistics := by
    rw [Statistics.touch, hs]
    rfl
  cases e with
  | log tag text => exact if_neg (of_decide_eq_false h)
  | warning text => exact if_neg (Bool.eq_false_iff.1 h)
  | count name => exact mapStatistics_of_same (count h name)
  | enter name =>
    have enter : d.statistics.enter name true = d.statistics := by
      rw [Statistics.enter]
      simp only [touch h, count h, if_true]
    exact mapStatistics_of_same (f := fun s => s.enter name true) enter
  | leave name => exact mapStatistics_of_same (touch h _)

/-- What becomes of some events is what becomes of those that are heard. -/
theorem recordAll_filter_hears (d : Diagnostics) (es : List Event) :
    d.recordAll (es.filter d.hears) = d.recordAll es := by
  -- the settings stay as they are, so what is heard at the start is heard at each event
  have kept : ∀ (es : List Event) (d' : Diagnostics), d'.settings = d.settings →
      d'.recordAll (es.filter d.hears) = d'.recordAll es := by
    intro es
    induction es with
    | nil => exact fun _ _ => rfl
    | cons e es ih =>
      intro d' hd
      have hnext := ih (d'.record e) ((d'.settings_record e).trans hd)
      cases he : d.hears e with
      | true =>
        rw [List.filter_cons_of_pos he]
        exact hnext
      | false =>
        have hsame := record_of_not_heard ((hears_of_settings hd e).trans he)
        rw [List.filter_cons_of_neg (by rw [he]; exact Bool.false_ne_true)]
        rw [hsame] at hnext
        rw [hnext]
        show _ = (d'.record e).recordAll es
        rw [hsame]
  exact kept es d rfl

end Diagnostics

/-! ## Actions that are alike -/

/-- What is seen of how an action ended, where only some events are heard. -/
def Outcome.heard {σ α : Type} (d : Diagnostics) (o : Outcome σ α) : Outcome σ α :=
  { o with events := o.events.filter d.hears }

namespace Action

variable {σ τ α β : Type} {d : Diagnostics}

/-- Two actions that end alike, leave the same state, and report the same as far as some
diagnostics hear it. -/
def Alike (d : Diagnostics) (x y : Action σ α) : Prop :=
  ∀ s, (x.run s).heard d = (y.run s).heard d

theorem Alike.refl (x : Action σ α) : Alike d x x := fun _ => rfl

section

variable {x y : Action σ α} (h : Alike d x y) (s : σ)

include h

theorem Alike.result : (x.run s).result = (y.run s).result := by
  have hr := congrArg Outcome.result (h s)
  exact hr

theorem Alike.state : (x.run s).state = (y.run s).state := by
  have hs := congrArg Outcome.state (h s)
  exact hs

theorem Alike.events : (x.run s).events.filter d.hears = (y.run s).events.filter d.hears := by
  have he := congrArg Outcome.events (h s)
  exact he

/-- What is shown and counted of actions that are alike is the same. -/
theorem Alike.recordAll : d.recordAll (x.run s).events = d.recordAll (y.run s).events := by
  rw [← d.recordAll_filter_hears, h.events, d.recordAll_filter_hears]

end

/-- Actions in a row are alike if each of them is. -/
theorem Alike.bind {x y : Action σ α} {f g : α → Action σ β} (hx : Alike d x y)
    (hf : ∀ a, Alike d (f a) (g a)) : Alike d (x >>= f) (y >>= g) := by
  intro s
  have hr := hx.result s
  have hs := hx.state s
  have he := hx.events s
  rw [run_bind, run_bind, ← hr, ← hs]
  cases (x.run s).result with
  | error e => simp only [Outcome.heard, he]
  | ok a =>
    have ha := (hf a).result (x.run s).state
    have hs' := (hf a).state (x.run s).state
    have he' := (hf a).events (x.run s).state
    simp only [Outcome.heard, List.filter_append, he, ha, hs', he']

theorem Alike.map {x y : Action σ α} (hx : Alike d x y) (f : α → β) :
    Alike d (f <$> x) (f <$> y) := by
  rw [← bind_pure_comp, ← bind_pure_comp]
  exact hx.bind fun _ => .refl _

/-- Loops are alike if their rounds are. -/
theorem Alike.forM {f g : α → Action σ Unit} (l : List α) (h : ∀ a, Alike d (f a) (g a)) :
    Alike d (l.forM f) (l.forM g) := by
  induction l with
  | nil => exact .refl _
  | cons a l ih => exact (h a).bind fun _ => ih

theorem Alike.build {x y : Action τ Unit} (h : Alike d x y) (start : τ) :
    Alike d (build x start : Action σ τ) (build y start) := by
  intro s
  rw [run_build, run_build, Outcome.heard, Outcome.heard, h.result, h.state]
  simp only [h.events]

theorem Alike.timed {x y : Action σ α} (h : Alike d x y) (name : String) :
    Alike d (timed name x) (timed name y) := by
  intro s
  rw [run_timed, run_timed, Outcome.heard, Outcome.heard, h.result, h.state]
  simp only [List.filter_append, List.filter_cons, h.events]

end Action

end FlowAutomaton
