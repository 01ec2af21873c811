import Eror.Library.Simulation

/-!
# Machines that take turns

A pool holds any number of machines beside what each of them has reported.  Machines are added
to the pool, and in any order one of them takes a step.  Which step function it uses may differ
from turn to turn, since it can depend on what the machines share.

A machine's slot in the pool depends on its own turns only (`runPool_getElem?`).  When the step
functions of its turns all do at the states that the machine passes what one fixed machine does,
the slot is what that machine reports when it runs alone (`turns_of_agree`, `solo_of_run`).
-/

set_option autoImplicit false

namespace Library

/-- Where a machine of a pool stands. -/
inductive Status (σ φ : Type)
  | running (s : σ)
  | halted
  | faulted (f : φ)

/-- A machine of a pool: the events it has reported, and where it stands. -/
structure Slot (σ ε φ : Type) where
  history : List ε
  status : Status σ φ

namespace Slot

variable {σ ε φ : Type}

/-- A machine that has not taken a step. -/
def fresh (s : σ) : Slot σ ε φ := ⟨[], .running s⟩

/-- One turn, with the given step function.  A machine that has halted or faulted stays as it
is. -/
def turn (t : Slot σ ε φ) (M : Machine σ ε φ) : Slot σ ε φ :=
  match t.status with
  | .running s =>
      match M.step s with
      | .ok (e, some s') => ⟨t.history ++ [e], .running s'⟩
      | .ok (e, none) => ⟨t.history ++ [e], .halted⟩
      | .error f => ⟨t.history, .faulted f⟩
  | .halted => t
  | .faulted _ => t

section Turn

variable {t : Slot σ ε φ} {M : Machine σ ε φ} {s s' : σ} {e : ε} {f : φ}

/-- A step is recorded, and the slot runs on. -/
theorem turn_of_step (hs : t.status = .running s) (h : M.step s = .ok (e, some s')) :
    t.turn M = ⟨t.history ++ [e], .running s'⟩ := by
  rw [turn, hs]
  simp only [h]

/-- A last step is recorded, and the slot halts. -/
theorem turn_of_halt (hs : t.status = .running s) (h : M.step s = .ok (e, none)) :
    t.turn M = ⟨t.history ++ [e], .halted⟩ := by
  rw [turn, hs]
  simp only [h]

/-- A fault is kept as the status. -/
theorem turn_of_error (hs : t.status = .running s) (h : M.step s = .error f) :
    t.turn M = ⟨t.history, .faulted f⟩ := by
  rw [turn, hs]
  simp only [h]

/-- A slot that does not run is left as it is. -/
theorem turn_of_not_running (h : ∀ s, t.status ≠ .running s) : t.turn M = t := by
  rw [turn]
  cases hs : t.status with
  | running s => exact absurd hs (h s)
  | halted => rfl
  | faulted f => rfl

/-- A turn reports what the step function reports. -/
theorem mem_history_turn {e : ε} (h : e ∈ (t.turn M).history) :
    e ∈ t.history ∨ ∃ s next, M.step s = .ok (e, next) := by
  cases hs : t.status with
  | running s =>
      cases hstep : M.step s with
      | error f =>
          rw [turn_of_error hs hstep] at h
          exact Or.inl h
      | ok r =>
          obtain ⟨e', next⟩ := r
          have hhistory : (t.turn M).history = t.history ++ [e'] := by
            cases next with
            | none => rw [turn_of_halt hs hstep]
            | some s' => rw [turn_of_step hs hstep]
          rw [hhistory] at h
          rcases List.mem_append.mp h with h | h
          · exact Or.inl h
          · rw [List.mem_singleton.mp h]
            exact Or.inr ⟨s, next, hstep⟩
  | halted =>
      rw [turn_of_not_running (by simp [hs])] at h
      exact Or.inl h
  | faulted f =>
      rw [turn_of_not_running (by simp [hs])] at h
      exact Or.inl h

/-- A turn uses the step function at the machine's state only. -/
theorem turn_congr {M' : Machine σ ε φ} (h : ∀ s, t.status = .running s → M'.step s = M.step s) :
    t.turn M' = t.turn M := by
  cases hs : t.status with
  | running s =>
      rw [turn, turn, hs]
      simp only [h s hs]
  | halted => rw [turn_of_not_running (by simp [hs]), turn_of_not_running (by simp [hs])]
  | faulted f => rw [turn_of_not_running (by simp [hs]), turn_of_not_running (by simp [hs])]

end Turn

/-- Several turns, each with its own step function. -/
def turns (t : Slot σ ε φ) (Ms : List (Machine σ ε φ)) : Slot σ ε φ := Ms.foldl turn t

/-- Without turns nothing changes. -/
@[simp] theorem turns_nil (t : Slot σ ε φ) : t.turns [] = t := rfl

/-- The first turn comes before the others. -/
@[simp] theorem turns_cons (t : Slot σ ε φ) (M : Machine σ ε φ) (Ms : List (Machine σ ε φ)) :
    t.turns (M :: Ms) = (t.turn M).turns Ms := rfl

/-- Turns are taken one after the other. -/
theorem turns_append (t : Slot σ ε φ) (Ms Ms' : List (Machine σ ε φ)) :
    t.turns (Ms ++ Ms') = (t.turns Ms).turns Ms' := List.foldl_append ..

/-- The machine's slot after `n` turns in which nothing interferes. -/
def solo (M : Machine σ ε φ) (n : ℕ) (s : σ) : Slot σ ε φ :=
  (fresh s).turns (List.replicate n M)

/-- One more turn alone. -/
theorem solo_succ (M : Machine σ ε φ) (n : ℕ) (s : σ) :
    solo M (n + 1) s = (solo M n s).turn M := by
  rw [solo, List.replicate_succ', turns_append]
  rfl

variable {M : Machine σ ε φ}

/-- **A slot records its own run**, when step functions that agree with one machine on the states
that it passes are used in turn. -/
theorem turns_of_agree (s : σ) (Ms : List (Machine σ ε φ))
    (h : ∀ k M', Ms[k]? = some M' →
      ∀ s', (solo M k s).status = .running s' → M'.step s' = M.step s') :
    (fresh s).turns Ms = solo M Ms.length s := by
  induction Ms using List.reverseRecOn with
  | nil => rfl
  | append_singleton Ms M' ih =>
      have hpre := ih fun k M'' hk => h k M'' (by
        rw [List.getElem?_append_left (List.getElem?_eq_some_iff.mp hk).1, hk])
      have hlast := h Ms.length M' List.getElem?_concat_length
      rw [turns_append, hpre, List.length_append, List.length_singleton, solo_succ]
      exact turn_congr hlast

/-! ## Runs as slots -/

/-- No turn changes a slot that does not run. -/
theorem turns_of_not_running {t : Slot σ ε φ} (h : ∀ s, t.status ≠ .running s)
    (Ms : List (Machine σ ε φ)) : t.turns Ms = t := by
  induction Ms with
  | nil => rfl
  | cons M Ms ih => rw [turns_cons, turn_of_not_running h, ih]

/-- What turns add to a slot does not depend on what it has reported before. -/
theorem turns_history (t : Slot σ ε φ) (Ms : List (Machine σ ε φ)) :
    t.turns Ms = ⟨t.history ++ ((⟨[], t.status⟩ : Slot σ ε φ).turns Ms).history,
      ((⟨[], t.status⟩ : Slot σ ε φ).turns Ms).status⟩ := by
  induction Ms using List.reverseRecOn with
  | nil => simp
  | append_singleton Ms M ih =>
      rw [turns_append, ih, turns_append]
      generalize (⟨[], t.status⟩ : Slot σ ε φ).turns Ms = u
      change turn _ M = Slot.mk (t.history ++ (u.turn M).history) (u.turn M).status
      cases hs : u.status with
      | running s =>
          cases hstep : M.step s with
          | error f =>
              rw [turn_of_error rfl hstep, turn_of_error hs hstep]
          | ok r =>
              obtain ⟨e, _ | s'⟩ := r
              · rw [turn_of_halt rfl hstep, turn_of_halt hs hstep, List.append_assoc]
              · rw [turn_of_step rfl hstep, turn_of_step hs hstep, List.append_assoc]
      | halted =>
          rw [turn_of_not_running (by simp), turn_of_not_running (by simp [hs]), hs]
      | faulted f =>
          rw [turn_of_not_running (by simp), turn_of_not_running (by simp [hs]), hs]

/-- The status that the outcome of a run stands for. -/
def statusOf : Option σ → Status σ φ
  | some s => .running s
  | none => .halted

/-- **The slot of a machine that runs alone is its run.** -/
theorem solo_of_run {n : ℕ} {s : σ} {es : List ε} {last : Option σ}
    (h : M.run n s = .ok (es, last)) : solo M n s = ⟨es, statusOf last⟩ := by
  induction n generalizing s es with
  | zero =>
      cases h
      rfl
  | succ n ih =>
      rw [solo, List.replicate_succ, turns_cons]
      cases hstep : M.step s with
      | error f =>
          rw [Machine.run_succ_of_error hstep] at h
          cases h
      | ok r =>
          obtain ⟨e, _ | s₁⟩ := r
          · rw [Machine.run_succ_of_halt hstep] at h
            cases h
            rw [turn_of_halt rfl hstep, turns_of_not_running (by simp)]
            rfl
          · cases hrun : M.run n s₁ with
            | error f =>
                rw [Machine.run_succ_of_step_error hstep hrun] at h
                cases h
            | ok r =>
                obtain ⟨es₁, last₁⟩ := r
                rw [Machine.run_succ_of_step hstep hrun] at h
                cases h
                have hrest := ih hrun
                rw [solo, fresh] at hrest
                rw [turn_of_step rfl hstep, turns_history, hrest]
                rfl

end Slot

namespace Machine

variable {σ ε φ : Type} {M : Machine σ ε φ} {n : ℕ} {s : σ} {es : List ε} {last : Option σ}

/-- The beginning of a run: it reports the same events, and while it stands, none of them is
missing. -/
theorem run_take (h : M.run n s = .ok (es, last)) {k : ℕ} (hk : k ≤ n) :
    ∃ last', M.run k s = .ok (es.take k, last') := by
  induction k generalizing n s es with
  | zero => exact ⟨some s, rfl⟩
  | succ k ih =>
      obtain ⟨n, rfl⟩ : ∃ m, n = m + 1 := ⟨n - 1, by omega⟩
      cases hstep : M.step s with
      | error f =>
          rw [run_succ_of_error hstep] at h
          cases h
      | ok r =>
          obtain ⟨e, _ | s₁⟩ := r
          · rw [run_succ_of_halt hstep] at h
            cases h
            exact ⟨none, by rw [run_succ_of_halt hstep, List.take_succ_cons, List.take_nil]⟩
          · cases hrun : M.run n s₁ with
            | error f =>
                rw [run_succ_of_step_error hstep hrun] at h
                cases h
            | ok r =>
                obtain ⟨es₁, last₁⟩ := r
                rw [run_succ_of_step hstep hrun] at h
                cases h
                obtain ⟨last', hlast'⟩ := ih hrun (by omega)
                exact ⟨last', run_succ_of_step hstep hlast'⟩

/-- A run that has halted stays as it is. -/
theorem run_of_halt (h : M.run n s = .ok (es, none)) (m : ℕ) :
    M.run (n + m) s = .ok (es, none) := by
  induction n generalizing s es with
  | zero => cases h
  | succ n ih =>
      rw [Nat.add_right_comm]
      cases hstep : M.step s with
      | error f =>
          rw [run_succ_of_error hstep] at h
          cases h
      | ok r =>
          obtain ⟨e, _ | s₁⟩ := r
          · rw [run_succ_of_halt hstep] at h
            cases h
            exact run_succ_of_halt hstep
          · cases hrun : M.run n s₁ with
            | error f =>
                rw [run_succ_of_step_error hstep hrun] at h
                cases h
            | ok r =>
                obtain ⟨es₁, last₁⟩ := r
                rw [run_succ_of_step hstep hrun] at h
                cases h
                exact run_succ_of_step hstep (ih hrun)

end Machine

namespace Slot

variable {σ ε φ : Type} {M : Machine σ ε φ} {n : ℕ} {s s' : σ} {es : List ε}

/-- Each turn of a machine that runs to its end reports the event of that place in its run. -/
theorem step_of_solo (h : M.run n s = .ok (es, none)) {k : ℕ}
    (hs : (solo M k s).status = .running s') :
    ∃ e next, es[k]? = some e ∧ M.step s' = .ok (e, next) := by
  rcases Nat.lt_or_ge k n with hk | hk
  · obtain ⟨last, hlast⟩ := Machine.run_take h hk.le
    obtain ⟨last', hlast'⟩ := Machine.run_take h (k := k + 1) hk
    rw [solo_of_run hlast] at hs
    cases last with
    | none => cases hs
    | some s₁ =>
        obtain rfl : s₁ = s' := by
          cases hs
          rfl
        rw [Machine.run_add 1 hlast] at hlast'
        cases hstep : M.step s₁ with
        | error f =>
            rw [Machine.run_succ_of_error hstep] at hlast'
            cases hlast'
        | ok r =>
            obtain ⟨e, next⟩ := r
            have hone : M.run 1 s₁ = .ok ([e], next) := by
              cases next with
              | none => exact Machine.run_succ_of_halt hstep
              | some s₂ => exact Machine.run_succ_of_step hstep rfl
            rw [hone] at hlast'
            have htake : es.take k ++ [e] = es.take (k + 1) :=
              congrArg Prod.fst (Except.ok.inj hlast')
            rw [List.take_add_one, List.append_cancel_left_eq] at htake
            refine ⟨e, next, ?_, rfl⟩
            cases he : es[k]? with
            | none => simp [he] at htake
            | some e' => simpa [he] using htake.symm
  · obtain ⟨m, rfl⟩ := Nat.exists_eq_add_of_le hk
    rw [solo_of_run (Machine.run_of_halt h m)] at hs
    cases hs

/-- What a machine that halts after as many steps as it reports events has reported after any
number of turns. -/
theorem solo_of_halting_run (h : M.run n s = .ok (es, none)) (hlen : es.length = n) (m : ℕ) :
    (solo M m s).history = es.take m ∧ ((solo M m s).status = .halted ↔ n ≤ m) ∧
      ∀ f, (solo M m s).status ≠ .faulted f := by
  rcases Nat.lt_or_ge m n with hm | hm
  · obtain ⟨last, hlast⟩ := Machine.run_take h hm.le
    rw [solo_of_run hlast]
    cases last with
    | none =>
        -- the machine would not report the events behind this place
        obtain ⟨d, rfl⟩ := Nat.exists_eq_add_of_lt hm
        rw [Nat.add_assoc, Machine.run_of_halt hlast] at h
        have htake : es.take m = es := congrArg Prod.fst (Except.ok.inj h)
        have hle := congrArg List.length htake
        rw [List.length_take] at hle
        omega
    | some s' =>
        refine ⟨rfl, ?_, by simp [statusOf]⟩
        simp only [statusOf, reduceCtorEq, false_iff]
        omega
  · obtain ⟨d, rfl⟩ := Nat.exists_eq_add_of_le hm
    rw [solo_of_run (Machine.run_of_halt h d), List.take_of_length_le (by omega)]
    exact ⟨rfl, ⟨fun _ => hm, fun _ => rfl⟩, by simp [statusOf]⟩

end Slot

/-! ## Pools -/

/-- A machine is added to the pool, or one that is in it takes a turn. -/
inductive PoolAction (σ ε φ : Type)
  | add (s : σ)
  | turn (i : ℕ) (M : Machine σ ε φ)

section Pool

variable {σ ε φ : Type}

/-- What an action does to the slots. -/
def stepPool (slots : List (Slot σ ε φ)) : PoolAction σ ε φ → List (Slot σ ε φ)
  | .add s => slots ++ [Slot.fresh s]
  | .turn i M => slots.modify i (Slot.turn · M)

/-- What a list of actions does to them. -/
def runPool (slots : List (Slot σ ε φ)) (actions : List (PoolAction σ ε φ)) :
    List (Slot σ ε φ) := actions.foldl stepPool slots

/-- The step functions of the turns of one machine, in their order. -/
def turnsOf (i : ℕ) : List (PoolAction σ ε φ) → List (Machine σ ε φ)
  | [] => []
  | .add _ :: actions => turnsOf i actions
  | .turn j M :: actions => if j = i then M :: turnsOf i actions else turnsOf i actions

/-- **The slots of a pool do not interfere.**  What becomes of a slot depends on its own turns,
in whatever order they are taken with those of the others, and whatever is added. -/
theorem runPool_getElem? (slots : List (Slot σ ε φ)) (actions : List (PoolAction σ ε φ)) {i : ℕ}
    {t : Slot σ ε φ} (h : slots[i]? = some t) :
    (runPool slots actions)[i]? = some (t.turns (turnsOf i actions)) := by
  induction actions generalizing slots t with
  | nil => exact h
  | cons a actions ih =>
      change (runPool (stepPool slots a) actions)[i]? = _
      cases a with
      | add s =>
          have hlt : i < slots.length := (List.getElem?_eq_some_iff.mp h).1
          exact ih _ (by rw [stepPool, List.getElem?_append_left hlt, h])
      | turn j M =>
          by_cases hj : j = i
          · subst hj
            rw [turnsOf, if_pos rfl, Slot.turns_cons]
            exact ih _ (by rw [stepPool, List.getElem?_modify_eq, h]; rfl)
          · rw [turnsOf, if_neg hj]
            exact ih _ (by rw [stepPool, List.getElem?_modify_ne _ _ hj, h])

/-- What holds of all reported events, and of every event that a turn can report, holds of all
reported events after it. -/
theorem stepPool_history {Q : ε → Prop} {slots : List (Slot σ ε φ)} {a : PoolAction σ ε φ}
    (h : ∀ t ∈ slots, ∀ e ∈ t.history, Q e)
    (hturn : ∀ i M, a = .turn i M → ∀ s e next, M.step s = .ok (e, next) → Q e) :
    ∀ t ∈ stepPool slots a, ∀ e ∈ t.history, Q e := by
  intro t ht e he
  cases a with
  | add s =>
      rcases List.mem_append.mp ht with ht | ht
      · exact h t ht e he
      · rw [List.mem_singleton.mp ht] at he
        cases he
  | turn i M =>
      obtain ⟨j, hj⟩ := List.mem_iff_getElem?.mp ht
      by_cases hij : i = j
      · subst hij
        rw [stepPool, List.getElem?_modify_eq] at hj
        obtain ⟨t₀, ht₀, rfl⟩ := Option.map_eq_some_iff.mp hj
        rcases Slot.mem_history_turn he with he | ⟨s, next, hstep⟩
        · exact h t₀ (List.mem_of_getElem? ht₀) e he
        · exact hturn i M rfl s e next hstep
      · rw [stepPool, List.getElem?_modify_ne _ _ hij] at hj
        exact h t (List.mem_of_getElem? hj) e he

/-- The turns of a slot, in one list of actions and the next. -/
theorem turnsOf_append (i : ℕ) (actions actions' : List (PoolAction σ ε φ)) :
    turnsOf i (actions ++ actions') = turnsOf i actions ++ turnsOf i actions' := by
  induction actions with
  | nil => rfl
  | cons a actions ih =>
      cases a with
      | add s => exact ih
      | turn j M =>
          rw [List.cons_append, turnsOf, turnsOf]
          by_cases hj : j = i
          · rw [if_pos hj, if_pos hj, ih, List.cons_append]
          · rw [if_neg hj, if_neg hj, ih]

/-- Two lists of actions, one after the other. -/
theorem runPool_append (slots : List (Slot σ ε φ)) (actions actions' : List (PoolAction σ ε φ)) :
    runPool slots (actions ++ actions') = runPool (runPool slots actions) actions' :=
  List.foldl_append ..

end Pool

end Library
