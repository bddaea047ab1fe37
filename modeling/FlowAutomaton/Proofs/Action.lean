/-
How composed actions run. The first action decides whether the second one runs at all; the state
that a failed action leaves is kept, and so are its events.
-/
import FlowAutomaton.InitialValue

namespace FlowAutomaton

namespace Action

variable {σ τ α β : Type}

theorem run_bind (x : Action σ α) (f : α → Action σ β) (s : σ) :
    (x >>= f).run s =
      match (x.run s).result with
      | .ok a => ⟨((f a).run (x.run s).state).result, ((f a).run (x.run s).state).state,
          (x.run s).events ++ ((f a).run (x.run s).state).events⟩
      | .error e => ⟨.error e, (x.run s).state, (x.run s).events⟩ := by
  cases h : (x.run s).result with
  | ok a => rw [run_bind_ok h]
  | error e => rw [run_bind_error h]

theorem run_bind_of_ok {x : Action σ α} {f : α → Action σ β} {s t : σ} {a : α} {es : List Event}
    (h : x.run s = ⟨.ok a, t, es⟩) :
    (x >>= f).run s = ⟨((f a).run t).result, ((f a).run t).state, es ++ ((f a).run t).events⟩ := by
  rw [run_bind, h]

/-- An action after one that reports nothing. -/
theorem run_bind_quiet {x : Action σ α} {f : α → Action σ β} {s t : σ} {a : α}
    (h : x.run s = ⟨.ok a, t, []⟩) : (x >>= f).run s = (f a).run t := by
  rw [run_bind_of_ok h]
  rfl

/-- An action after a report. -/
theorem run_bind_emit (e : Event) (f : Unit → Action σ α) (s : σ) :
    (emit e >>= f).run s =
      ⟨((f ()).run s).result, ((f ()).run s).state, e :: ((f ()).run s).events⟩ := by
  rw [run_bind_of_ok (run_emit e s)]
  rfl

theorem run_bind_failed {x : Action σ α} {f : α → Action σ β} {s t : σ} {e : Fault} {es : List Event}
    (h : x.run s = ⟨.error e, t, es⟩) : (x >>= f).run s = ⟨.error e, t, es⟩ := by
  rw [run_bind, h]

/-- Two actions in a row that end with an answer: both did, and the second one left the state. -/
theorem run_bind_inv {x : Action σ α} {f : α → Action σ β} {s : σ} {b : β}
    (h : ((x >>= f).run s).result = .ok b) :
    ∃ a, (x.run s).result = .ok a ∧ ((f a).run (x.run s).state).result = .ok b ∧
      ((x >>= f).run s).state = ((f a).run (x.run s).state).state := by
  obtain ⟨a, ha, hb⟩ := bind_eq_ok_iff.1 h
  refine ⟨a, ha, hb, ?_⟩
  rw [run_bind_ok ha]

theorem run_map (f : α → β) (x : Action σ α) (s : σ) :
    (f <$> x).run s = ⟨(x.run s).result.map f, (x.run s).state, (x.run s).events⟩ := by
  rw [← bind_pure_comp, run_bind]
  cases h : (x.run s).result with
  | ok a => simp [Except.map]
  | error e => simp [Except.map]

@[simp] theorem run_tryModify (f : σ → Except Fault σ) (s : σ) :
    (tryModify f).run s =
      match f s with
      | .ok s' => ⟨.ok (), s', []⟩
      | .error e => ⟨.error e, s, []⟩ := rfl

/-- A loop of which every round answers and reports nothing, as long as an invariant holds. -/
theorem run_forM_quiet {f : α → Action σ Unit} {step : σ → α → σ} {P : σ → Prop} :
    ∀ (l : List α) (s : σ), P s →
      (∀ a ∈ l, ∀ t, P t → (f a).run t = ⟨.ok (), step t a, []⟩ ∧ P (step t a)) →
      (l.forM f).run s = ⟨.ok (), l.foldl step s, []⟩
  | [], _, _, _ => rfl
  | a :: l, s, hs, h => by
    obtain ⟨ha, hi⟩ := h a List.mem_cons_self s hs
    change (f a >>= fun _ => l.forM f).run s = _
    rw [run_bind_quiet ha]
    exact run_forM_quiet l _ hi fun b hb => h b (List.mem_cons_of_mem a hb)

theorem run_build (x : Action τ Unit) (start : τ) (s : σ) :
    (build x start).run s =
      ⟨(x.run start).result.map fun _ => (x.run start).state, s, (x.run start).events⟩ := rfl

/-! ## Where an action ends -/

/-- The state that an action leaves which answers, or the cause of its failure. -/
def ends (x : Action σ Unit) (s : σ) : Except Fault σ :=
  (x.run s).result.map fun _ => (x.run s).state

theorem ends_of_failed {x : Action σ Unit} {s t : σ} {e : Fault} {es : List Event}
    (h : x.run s = ⟨.error e, t, es⟩) : x.ends s = .error e := by
  rw [ends, h]
  rfl

theorem ends_bind (x : Action σ Unit) (f : Unit → Action σ Unit) (s : σ) :
    (x >>= f).ends s = x.ends s >>= (f ()).ends := by
  unfold ends
  rw [run_bind]
  cases (x.run s).result with
  | ok a => rfl
  | error e => rfl

/-- Two actions in a row, of which each fails or not whatever the other one does. -/
theorem ends_seq {x y : Action σ Unit} {cx cy : Except Fault Unit} {s t u : σ}
    (hx : x.ends s = cx.map fun _ => t) (hy : y.ends t = cy.map fun _ => u) :
    (x >>= fun _ => y).ends s = (cx >>= fun _ => cy).map fun _ => u := by
  rw [ends_bind, hx]
  cases cx with
  | ok a => exact hy
  | error e => rfl

theorem ends_forM (f : α → Action σ Unit) (l : List α) (s : σ) :
    (l.forM f).ends s = l.foldlM (fun t a => (f a).ends t) s := by
  induction l generalizing s with
  | nil => rfl
  | cons a l ih =>
    change (f a >>= fun _ => l.forM f).ends s = _
    rw [ends_bind, List.foldlM_cons]
    cases (f a).ends s with
    | ok t => exact ih t
    | error e => rfl

/-- A loop of which each round fails or not whatever the state, as long as an invariant holds. -/
theorem foldlM_eq_forM {f : σ → α → Except Fault σ} {check : α → Except Fault Unit}
    {step : σ → α → σ} {P : σ → Prop} {l : List α} {s : σ} (hs : P s)
    (hf : ∀ a t, P t → f t a = (check a).map fun _ => step t a) (hP : ∀ a t, P t → P (step t a)) :
    l.foldlM f s = (l.forM check).map fun _ => l.foldl step s := by
  induction l generalizing s with
  | nil => rfl
  | cons a l ih =>
    change _ = (check a >>= fun _ => l.forM check).map _
    rw [List.foldlM_cons, hf a s hs]
    cases check a with
    | ok u => exact ih (hP a s hs)
    | error e => rfl

/-! ## What is seen of an action -/

/-- What is seen of an action: its answer or its failure, and what it reports. -/
def seen (x : Action σ α) (s : σ) : Except Fault α × List Event := ((x.run s).result, (x.run s).events)

theorem seen_of_run {x : Action σ α} {s t : σ} {r : Except Fault α} {es : List Event}
    (h : x.run s = ⟨r, t, es⟩) : x.seen s = (r, es) := by
  rw [seen, h]

theorem seen_map (f : α → β) (x : Action σ α) (s : σ) :
    (f <$> x).seen s = ((x.seen s).1.map f, (x.seen s).2) := by
  rw [seen, run_map]
  rfl

theorem seen_get_map (f : σ → α) (s : σ) : (f <$> get).seen s = (.ok (f s), []) :=
  seen_of_run (run_map f get s)

theorem seen_get_ofExcept (f : σ → Except Fault α) (s : σ) :
    (get >>= fun t => ofExcept (f t)).seen s = (f s, []) :=
  seen_of_run (run_bind_quiet (run_get s))

/-! ## Failure -/

/-- An action fails in a state. -/
def Fails (x : Action σ α) (s : σ) : Prop := ∃ e, (x.run s).result = .error e

theorem fails_of_run {x : Action σ α} {s t : σ} {e : Fault} {es : List Event}
    (h : x.run s = ⟨.error e, t, es⟩) : x.Fails s := by
  rw [Fails, h]
  exact ⟨e, rfl⟩

theorem not_fails_of_result {x : Action σ α} {s : σ} {a : α} (h : (x.run s).result = .ok a) :
    ¬x.Fails s := by
  rintro ⟨e, he⟩
  rw [h] at he
  cases he

theorem map_eq_error_iff (f : α → β) (r : Except Fault α) :
    (∃ e, r.map f = .error e) ↔ ∃ e, r = .error e := by
  cases r with
  | ok a => simp [Except.map]
  | error e => simp [Except.map]

theorem fails_map (f : α → β) (x : Action σ α) (s : σ) : (f <$> x).Fails s ↔ x.Fails s := by
  rw [Fails, run_map]
  exact map_eq_error_iff f (x.run s).result

theorem fails_get_ofExcept (f : σ → Except Fault α) (s : σ) :
    (get >>= fun t => ofExcept (f t)).Fails s ↔ ∃ e, f s = .error e := by
  rw [Fails, run_bind_quiet (run_get s), run_ofExcept]

/-- Two actions in a row fail if the first one does, or the second one in the state that the first
one leaves. -/
theorem fails_bind (x : Action σ α) (f : α → Action σ β) (s : σ) :
    (x >>= f).Fails s ↔
      x.Fails s ∨ ∃ a, (x.run s).result = .ok a ∧ (f a).Fails (x.run s).state := by
  unfold Fails
  rw [run_bind]
  cases (x.run s).result with
  | ok a => simp
  | error e => simp

theorem fails_seq {x y : Action σ Unit} {p q : Prop} (hx : ∀ s, x.Fails s ↔ p)
    (hy : ∀ s, y.Fails s ↔ q) (s : σ) : (x >>= fun _ => y).Fails s ↔ p ∨ q := by
  rw [fails_bind, hx, hy]
  constructor
  · rintro (hp | ⟨-, -, hq⟩)
    · exact .inl hp
    · exact .inr hq
  · rintro (hp | hq)
    · exact .inl hp
    · cases hr : (x.run s).result with
      | ok a => exact .inr ⟨a, rfl, hq⟩
      | error e => exact .inl ((hx s).1 ⟨e, hr⟩)

/-- A loop of which each round fails or not whatever the state fails if some round of it does. -/
theorem fails_forM {f : α → Action σ Unit} {p : α → Prop} {l : List α}
    (h : ∀ a ∈ l, ∀ s, (f a).Fails s ↔ p a) (s : σ) : (l.forM f).Fails s ↔ ∃ a ∈ l, p a := by
  induction l generalizing s with
  | nil => exact iff_of_false (not_fails_of_result rfl) (by simp)
  | cons a l ih =>
    obtain ⟨ha, hl⟩ := List.forall_mem_cons.1 h
    simp only [List.mem_cons, exists_eq_or_imp]
    exact fails_seq (y := l.forM f) ha (ih hl) s

/-! ## Actions that leave the state alone -/

/-- An action that leaves the state as it was, however it ends. -/
def ReadOnly (x : Action σ α) : Prop := ∀ s, (x.run s).state = s

theorem ReadOnly.pure (a : α) : ReadOnly (pure a : Action σ α) := fun _ => rfl

theorem ReadOnly.get : ReadOnly (get : Action σ σ) := fun _ => rfl

theorem ReadOnly.ofExcept (r : Except Fault α) : ReadOnly (ofExcept r : Action σ α) := fun _ => rfl

theorem ReadOnly.emit (e : Event) : ReadOnly (emit e : Action σ Unit) := fun _ => rfl

theorem ReadOnly.bind {x : Action σ α} {f : α → Action σ β} (hx : ReadOnly x)
    (hf : ∀ a, ReadOnly (f a)) : ReadOnly (x >>= f) := by
  intro s
  rw [run_bind]
  cases (x.run s).result with
  | ok a => exact (hf a _).trans (hx s)
  | error e => exact hx s

theorem ReadOnly.map {x : Action σ α} (hx : ReadOnly x) (f : α → β) : ReadOnly (f <$> x) := by
  intro s
  rw [run_map]
  exact hx s

end Action

namespace InitialValue

/-- The initial value of a configuration, by itself. -/
def value (c : Configuration) : Except Fault Value := ((ofConfiguration c).run ()).result

/-- What is reported while the initial value is made. -/
def events (c : Configuration) : List Event := ((ofConfiguration c).run ()).events

/-- The initial value has nothing to do with the state in which it is asked for. -/
theorem run_ofConfiguration {σ : Type} (c : Configuration) (s : σ) :
    (ofConfiguration c).run s = ⟨value c, s, events c⟩ := rfl

end InitialValue

end FlowAutomaton
