import Mathlib.Tactic

/-!
# Machines that report what they do, and simulations between them

A step of a `Machine` reports an event and goes on in a new state, halts, or ends in a fault.
`A.Simulates M obs R` says that `M` does, up to the observation `obs` of its events, what `A`
does, from related states and into related states, faults included.  The two run lemmas carry
this from steps to runs of any length.
-/

set_option autoImplicit false

namespace Library

/-- A deterministic machine with states `σ`, events `ε` and faults `φ`. -/
structure Machine (σ ε φ : Type) where
  step : σ → Except φ (ε × Option σ)

namespace Machine

variable {α δ σ ε φ : Type}

/-- The events of at most `n` steps, and the state after them unless the machine has halted. -/
def run (M : Machine σ ε φ) : ℕ → σ → Except φ (List ε × Option σ)
  | 0, s => .ok ([], some s)
  | n + 1, s => do
      let (e, next) ← M.step s
      match next with
      | none => return ([e], none)
      | some s => do
          let (es, last) ← run M n s
          return (e :: es, last)

section Run

variable {M : Machine σ ε φ} {n : ℕ} {s s' : σ} {e : ε} {es : List ε} {last : Option σ}

/-- A run that begins with a step. -/
theorem run_succ_of_step (h : M.step s = .ok (e, some s')) (hrun : M.run n s' = .ok (es, last)) :
    M.run (n + 1) s = .ok (e :: es, last) := by
  rw [run, h]
  change (M.run n s' >>= fun r => _) = _
  rw [hrun]
  rfl

/-- A run that halts in its first step. -/
theorem run_succ_of_halt (h : M.step s = .ok (e, none)) :
    M.run (n + 1) s = .ok ([e], none) := by
  rw [run, h]
  rfl

/-- A run that faults behind its first step. -/
theorem run_succ_of_step_error {f : φ} (h : M.step s = .ok (e, some s'))
    (hrun : M.run n s' = .error f) : M.run (n + 1) s = .error f := by
  rw [run, h]
  change (M.run n s' >>= fun r => _) = _
  rw [hrun]
  rfl

/-- A run that faults in its first step. -/
theorem run_succ_of_error {f : φ} (h : M.step s = .error f) : M.run (n + 1) s = .error f := by
  rw [run, h]
  rfl

/-- **A run goes on where another one stopped.** -/
theorem run_add (m : ℕ) (h : M.run n s = .ok (es, some s')) :
    M.run (n + m) s = (M.run m s').map fun r => (es ++ r.1, r.2) := by
  induction n generalizing s es with
  | zero =>
      cases h
      rw [Nat.zero_add]
      cases M.run m s' <;> rfl
  | succ n ih =>
      rw [Nat.add_right_comm]
      cases hstep : M.step s with
      | error f =>
          rw [run_succ_of_error hstep] at h
          cases h
      | ok r =>
          obtain ⟨e, _ | s₁⟩ := r
          · rw [run_succ_of_halt hstep] at h
            cases h
          · cases hrun : M.run n s₁ with
            | error f =>
                rw [run_succ_of_step_error hstep hrun] at h
                cases h
            | ok r =>
                obtain ⟨es₁, last₁⟩ := r
                rw [run_succ_of_step hstep hrun] at h
                cases h
                have hrest := ih hrun
                cases hgo : M.run m s' with
                | error f =>
                    rw [hgo] at hrest
                    exact run_succ_of_step_error hstep hrest
                | ok r =>
                    rw [hgo] at hrest
                    exact run_succ_of_step hstep hrest

/-- What a run that does at least one step begins with. -/
theorem run_succ_cases (h : M.run (n + 1) s = .ok (es, last)) :
    (∃ e, M.step s = .ok (e, none) ∧ es = [e] ∧ last = none) ∨
      ∃ e s₁ es₁, M.step s = .ok (e, some s₁) ∧ M.run n s₁ = .ok (es₁, last) ∧ es = e :: es₁ := by
  cases hstep : M.step s with
  | error f =>
      rw [run_succ_of_error hstep] at h
      cases h
  | ok r =>
      obtain ⟨e, _ | s₁⟩ := r
      · rw [run_succ_of_halt hstep] at h
        cases h
        exact .inl ⟨e, rfl, rfl, rfl⟩
      · cases hrest : M.run n s₁ with
        | error f =>
            rw [run_succ_of_step_error hstep hrest] at h
            cases h
        | ok r =>
            rw [run_succ_of_step hstep hrest] at h
            cases h
            exact .inr ⟨e, s₁, r.1, rfl, hrest, rfl⟩

/-- INTERNAL: **an invariant is kept by a run**, when each step with an event that is allowed keeps
it, and no other events happen.  Every event is one that happens in a state where it holds. -/
theorem run_invariant_of {I : σ → Prop} {A P : ε → Prop}
    (hstep : ∀ s e next, I s → M.step s = .ok (e, next) → A e →
      P e ∧ ∀ s', next = some s' → I s')
    (hs : I s) (hrun : M.run n s = .ok (es, last)) (hA : ∀ e ∈ es, A e) :
    (∀ e ∈ es, P e) ∧ ∀ s', last = some s' → I s' := by
  induction n generalizing s es with
  | zero =>
      cases hrun
      refine ⟨fun e he => absurd he List.not_mem_nil, ?_⟩
      intro s' hs'
      cases hs'
      exact hs
  | succ n ih =>
      rcases run_succ_cases hrun with ⟨e, h, rfl, rfl⟩ | ⟨e, s₁, es₁, h, hrest, rfl⟩
      · constructor
        · intro e' he'
          rw [List.mem_singleton.mp he']
          exact (hstep s e none hs h (hA e List.mem_cons_self)).1
        · intro s' hs'
          cases hs'
      · obtain ⟨he, hnext⟩ := hstep s e (some s₁) hs h (hA e List.mem_cons_self)
        obtain ⟨hes, hlast⟩ := ih (hnext s₁ rfl) hrest
          fun e' he' => hA e' (List.mem_cons_of_mem e he')
        exact ⟨List.forall_mem_cons.mpr ⟨he, hes⟩, hlast⟩

/-- **An invariant is kept by a run**, when each step keeps it. -/
theorem run_invariant {I : σ → Prop} {P : ε → Prop}
    (hstep : ∀ s e next, I s → M.step s = .ok (e, next) → P e ∧ ∀ s', next = some s' → I s')
    (hs : I s) (hrun : M.run n s = .ok (es, last)) :
    (∀ e ∈ es, P e) ∧ ∀ s', last = some s' → I s' :=
  run_invariant_of (A := fun _ => True) (fun s e next h hs _ => hstep s e next h hs) hs hrun
    fun _ _ => trivial

/-- INTERNAL: **two runs side by side.**  A relation that the steps keep as long as what is observed
of their events is the same is kept by runs of which the same is observed. -/
theorem run_together {σ' ε' φ' κ : Type} {M' : Machine σ' ε' φ'} {I : σ → σ' → Prop} {obs : ε → κ}
    {obs' : ε' → κ}
    (hstep : ∀ s s' e e' t t', I s s' → M.step s = .ok (e, some t) →
      M'.step s' = .ok (e', some t') → obs e = obs' e' → I t t')
    {s t : σ} {s' t' : σ'} {es' : List ε'} (hI : I s s') (hrun : M.run n s = .ok (es, some t))
    (hrun' : M'.run n s' = .ok (es', some t')) (hobs : es.map obs = es'.map obs') : I t t' := by
  induction n generalizing s s' es es' with
  | zero =>
      cases hrun
      cases hrun'
      exact hI
  | succ n ih =>
      obtain ⟨e, -, -, hlast⟩ | ⟨e, s₁, es₁, h, hrest, rfl⟩ := run_succ_cases hrun
      · cases hlast
      obtain ⟨e', -, -, hlast⟩ | ⟨e', s₁', es₁', h', hrest', rfl⟩ := run_succ_cases hrun'
      · cases hlast
      rw [List.map_cons, List.map_cons, List.cons.injEq] at hobs
      exact ih (hstep s s' e e' s₁ s₁' hI h h' hobs.1) hrest hrest' hobs.2

/-- **A run ends in a fault** if and only if it reaches a state, in fewer steps, whose next step
does. -/
theorem run_eq_error_iff {f : φ} : M.run n s = .error f ↔
    ∃ k < n, ∃ es s', M.run k s = .ok (es, some s') ∧ M.step s' = .error f := by
  constructor
  · intro hrun
    induction n generalizing s with
    | zero => cases hrun
    | succ n ih =>
        cases h : M.step s with
        | error f' =>
            rw [run_succ_of_error h] at hrun
            cases hrun
            exact ⟨0, Nat.succ_pos n, [], s, rfl, h⟩
        | ok r =>
            obtain ⟨e, _ | s₁⟩ := r
            · rw [run_succ_of_halt h] at hrun
              cases hrun
            · cases hrest : M.run n s₁ with
              | ok r =>
                  rw [run_succ_of_step h hrest] at hrun
                  cases hrun
              | error f' =>
                  rw [run_succ_of_step_error h hrest] at hrun
                  cases hrun
                  obtain ⟨k, hk, es, s', hs', hfault⟩ := ih hrest
                  exact ⟨k + 1, Nat.succ_lt_succ hk, e :: es, s', run_succ_of_step h hs', hfault⟩
  · rintro ⟨k, hk, es, s', hrun, hfault⟩
    obtain ⟨m, rfl⟩ : ∃ m, n = k + (m + 1) := ⟨n - k - 1, by omega⟩
    rw [run_add (m + 1) hrun, run_succ_of_error hfault]
    rfl

end Run

/-- `M` does what `A` does, up to the observation of its events. -/
structure Simulates (A : Machine α δ φ) (M : Machine σ ε φ) (obs : ε → δ) (R : α → σ → Prop) :
    Prop where
  step_ok : ∀ {a s d a'}, R a s → A.step a = .ok (d, a') →
    ∃ e s', M.step s = .ok (e, s') ∧ obs e = d ∧ Option.Rel R a' s'
  step_error : ∀ {a s f}, R a s → A.step a = .error f → M.step s = .error f

section Simulates

variable {A : Machine α δ φ} {M : Machine σ ε φ} {obs : ε → δ} {R : α → σ → Prop}

/-- **Runs are simulated**: from related states, the events are observed alike and the states
reached are related. -/
theorem Simulates.run_ok (h : A.Simulates M obs R) {n : ℕ} {a : α} {s : σ} (hR : R a s)
    {ds : List δ} {a' : Option α} (hrun : A.run n a = .ok (ds, a')) :
    ∃ es s', M.run n s = .ok (es, s') ∧ es.map obs = ds ∧ Option.Rel R a' s' := by
  induction n generalizing a s ds with
  | zero =>
      cases hrun
      exact ⟨[], some s, rfl, rfl, .some hR⟩
  | succ n ih =>
      cases hstep : A.step a with
      | error f =>
          rw [run_succ_of_error hstep] at hrun
          cases hrun
      | ok r =>
          obtain ⟨d, next⟩ := r
          obtain ⟨e, s₁, hs₁, rfl, hrel⟩ := h.step_ok hR hstep
          cases hrel with
          | none =>
              rw [run_succ_of_halt hstep] at hrun
              cases hrun
              exact ⟨[e], none, run_succ_of_halt hs₁, rfl, .none⟩
          | some hR₁ =>
              rename_i a₁ s₁
              cases hrest : A.run n a₁ with
              | error f =>
                  rw [run_succ_of_step_error hstep hrest] at hrun
                  cases hrun
              | ok r =>
                  obtain ⟨ds₁, last₁⟩ := r
                  rw [run_succ_of_step hstep hrest] at hrun
                  cases hrun
                  obtain ⟨es, s', hs', hobs, hlast⟩ := ih hR₁ hrest
                  exact ⟨e :: es, s', run_succ_of_step hs₁ hs', by rw [List.map_cons, hobs], hlast⟩

/-- Faults are simulated. -/
theorem Simulates.run_error (h : A.Simulates M obs R) {n : ℕ} {a : α} {s : σ} (hR : R a s) {f : φ}
    (hrun : A.run n a = .error f) : M.run n s = .error f := by
  induction n generalizing a s with
  | zero => cases hrun
  | succ n ih =>
      cases hstep : A.step a with
      | error f' =>
          rw [run_succ_of_error hstep] at hrun
          cases hrun
          exact run_succ_of_error (h.step_error hR hstep)
      | ok r =>
          obtain ⟨d, next⟩ := r
          obtain ⟨e, s₁, hs₁, rfl, hrel⟩ := h.step_ok hR hstep
          cases hrel with
          | none =>
              rw [run_succ_of_halt hstep] at hrun
              cases hrun
          | some hR₁ =>
              rename_i a₁ s₁
              cases hrest : A.run n a₁ with
              | ok r =>
                  rw [run_succ_of_step hstep hrest] at hrun
                  cases hrun
              | error f' =>
                  rw [run_succ_of_step_error hstep hrest] at hrun
                  cases hrun
                  exact run_succ_of_step_error hs₁ (ih hR₁ hrest)

/-- What is simulated is what happens: the reports of the two machines are the same, faults
included. -/
theorem Simulates.run_events (h : A.Simulates M obs R) (n : ℕ) {a : α} {s : σ} (hR : R a s) :
    (A.run n a).map Prod.fst = (M.run n s).map fun r => r.1.map obs := by
  cases hrun : A.run n a with
  | error f =>
      rw [h.run_error hR hrun]
      rfl
  | ok r =>
      obtain ⟨ds, last⟩ := r
      obtain ⟨es, s', hs', hobs, -⟩ := h.run_ok hR hrun
      rw [hs']
      exact congrArg Except.ok hobs.symm

end Simulates

/-- INTERNAL: **a run is mirrored** by a machine that mirrors the steps whose events are good,
when all of its events are. -/
theorem run_mirror {A : Machine α δ φ} {M : Machine σ ε φ} {obs : ε → δ} {view : σ → α}
    {good : ε → Prop}
    (hstep : ∀ s e next, M.step s = .ok (e, next) → good e →
      A.step (view s) = .ok (obs e, next.map view))
    {n : ℕ} {s : σ} {es : List ε} {last : Option σ} (hrun : M.run n s = .ok (es, last))
    (hgood : ∀ e ∈ es, good e) : A.run n (view s) = .ok (es.map obs, last.map view) := by
  induction n generalizing s es with
  | zero =>
      cases hrun
      rfl
  | succ n ih =>
      cases h : M.step s with
      | error f =>
          rw [run_succ_of_error h] at hrun
          cases hrun
      | ok r =>
          obtain ⟨e, _ | s₁⟩ := r
          · rw [run_succ_of_halt h] at hrun
            cases hrun
            exact run_succ_of_halt (hstep s e none h (hgood e List.mem_cons_self))
          · cases hrest : M.run n s₁ with
            | error f =>
                rw [run_succ_of_step_error h hrest] at hrun
                cases hrun
            | ok r =>
                rw [run_succ_of_step h hrest] at hrun
                cases hrun
                exact run_succ_of_step (hstep s e _ h (hgood e List.mem_cons_self))
                  (ih hrest fun e' he' => hgood e' (List.mem_cons_of_mem e he'))

end Machine

end Library
