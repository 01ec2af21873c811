import Mathlib.Tactic

/-!
# What a call can end in

`Error` is the crate's error type (src/error.rs).  A call of one of its functions returns a
value, returns an `Err`, or panics.  `Exec α` keeps the three apart: what answers an onion with
an `Err` goes on to the next one, and what panics on it has stopped.

Two of the panics depend on how the code was compiled (`Profile`): an operation on integers that
overflows, and a debug assertion that fails.  Functions whose names end in `In` take the profile
as an argument.  The others are those of the `release` profile, where integers wrap.
-/

set_option autoImplicit false

namespace Eror.Model

/-- All possible errors that can arise during onion forming and processing.  What bincode
reports inside `SerializationError` is not kept: no function looks at it.
SRC: src/error.rs:5-46 -/
inductive Error
  | pathTooLong
  | keyNotFound
  | macMismatch
  | notTheReceiver
  | notTheSender
  | unexpectedReply
  | serializationError
  | aeError
  deriving DecidableEq, Repr

/-- A call that does not return a value returns an `Err` or panics. -/
inductive Fault
  | err (e : Error)
  | panic
  deriving DecidableEq, Repr

/-- What a call ends in. -/
abbrev Exec (α : Type) := Except Fault α

/-- The profile that the code is compiled in.  In `dev`, which is the default, operations on
integers are checked for overflow and debug assertions are executed; in `release` neither. -/
inductive Profile
  | dev
  | release
  deriving DecidableEq, Repr

/-- An overflow check, or a debug assertion: in the `dev` profile the call panics when the
condition fails. -/
@[irreducible] def Profile.check (p : Profile) (cond : Prop) [Decidable cond] : Exec Unit :=
  if p = .dev ∧ ¬ cond then .error .panic else .ok ()

/-- `ok_or(e)?` -/
def orErr {α : Type} (o : Option α) (e : Error) : Exec α :=
  match o with
  | some a => .ok a
  | none => .error (.err e)

/-- `unwrap()` of an option or a result, or an index into a slice. -/
def orPanic {α : Type} (o : Option α) : Exec α :=
  match o with
  | some a => .ok a
  | none => .error .panic

/-- `a - b` on unsigned integers of `w` bits in the `release` profile. -/
@[irreducible] def wrappingSub (w a b : ℕ) : ℕ := (a + 2 ^ w - b) % 2 ^ w

/-- One when `a - b` is below zero, where the `dev` profile panics. -/
@[irreducible] def underflow (a b : ℕ) : ℕ := if a < b then 1 else 0

/-- `n as u32` -/
@[irreducible] def asU32 (n : ℕ) : ℕ := n % 2 ^ 32

/-- `lo..hi` -/
def range (lo hi : ℕ) : List ℕ := List.range' lo (hi - lo)

section Simp

variable {α β : Type}

/-- What has returned a value goes on with it. -/
@[simp] theorem ok_bind (a : α) (f : α → Exec β) : (Except.ok a >>= f) = f a := rfl

/-- What has ended in a fault does not go on. -/
@[simp] theorem error_bind (e : Fault) (f : α → Exec β) :
    ((Except.error e : Exec α) >>= f) = .error e := rfl

/-- A value is no error. -/
@[simp] theorem orErr_some (a : α) (e : Error) : orErr (some a) e = .ok a := rfl

/-- Nothing is the given error. -/
@[simp] theorem orErr_none (e : Error) : orErr (none : Option α) e = .error (.err e) := rfl

/-- A value is unwrapped. -/
@[simp] theorem orPanic_some (a : α) : orPanic (some a) = .ok a := rfl

/-- Nothing cannot be unwrapped. -/
@[simp] theorem orPanic_none : orPanic (none : Option α) = .error .panic := rfl

/-- A check that holds, or is not made, does nothing. -/
theorem check_of_holds {p : Profile} {cond : Prop} [Decidable cond] (h : p = .dev → cond) :
    p.check cond = .ok () := by
  rw [Profile.check, if_neg fun hfail => hfail.2 (h hfail.1)]

/-- What stands behind a check that holds goes on. -/
theorem check_bind_of_holds {p : Profile} {cond : Prop} [Decidable cond] (f : Unit → Exec α)
    (h : p = .dev → cond) : (p.check cond >>= f) = f () := by
  rw [check_of_holds h, ok_bind]

/-- In the `release` profile no check is made. -/
@[simp] theorem check_release_bind (cond : Prop) [Decidable cond] (f : Unit → Exec α) :
    (Profile.release.check cond >>= f) = f () := check_bind_of_holds f (by simp)

/-- In the `dev` profile a check that fails is a panic. -/
theorem check_dev_of_not {cond : Prop} [Decidable cond] (h : ¬ cond) :
    Profile.dev.check cond = .error .panic := by
  rw [Profile.check, if_pos ⟨rfl, h⟩]

/-- A call returns a value when both of its parts do. -/
theorem bind_eq_ok {x : Exec α} {f : α → Exec β} {b : β} :
    (x >>= f) = .ok b ↔ ∃ a, x = .ok a ∧ f a = .ok b := by
  cases x with
  | error e => simp
  | ok a => simp

/-- A call ends in the fault of its first part, or else in that of its second one. -/
theorem bind_eq_fault_iff {x : Exec α} {f : α → Exec β} {e : Fault} :
    (x >>= f) = .error e ↔ x = .error e ∨ ∃ a, x = .ok a ∧ f a = .error e := by
  cases x with
  | error e' => simp
  | ok a => simp

/-- INTERNAL: a sequence whose second part cannot fault faults as its first part does. -/
theorem bind_eq_error {γ : Type} {x : Exec α} {f : α → β} {g : α → γ} {e : Fault}
    (h : (do let a ← x; return f a) = (.error e : Exec β)) :
    (do let a ← x; return g a) = (.error e : Exec γ) := by
  cases x with
  | error e' =>
      cases h
      rfl
  | ok a => cases h

/-- The value of a call that is mapped comes from a value of the call. -/
theorem map_eq_ok {x : Exec α} {f : α → β} {b : β} :
    x.map f = .ok b ↔ ∃ a, x = .ok a ∧ f a = b := by
  cases x with
  | error e => exact ⟨nofun, nofun⟩
  | ok a => simp [Except.map]

/-- `ok_or(e)?` returns the value that is there. -/
theorem orErr_eq_ok {o : Option α} {e : Error} {a : α} : orErr o e = .ok a ↔ o = some a := by
  cases o <;> simp

/-- `unwrap()` returns the value that is there. -/
theorem orPanic_eq_ok {o : Option α} {a : α} : orPanic o = .ok a ↔ o = some a := by
  cases o <;> simp

/-- What is mapped behind each value is mapped behind the call. -/
theorem bind_eq_map_bind {γ : Type} {x : Exec α} {f : α → Exec β} {f' : α → Exec γ} {s : β → γ}
    (h : ∀ a, f' a = (f a).map s) : (x >>= f') = (x >>= f).map s := by
  cases x with
  | error e => rfl
  | ok a => exact h a

/-- So it is when the first part is mapped as well. -/
theorem map_bind_eq_map_bind {γ δ : Type} {x : Exec α} {x' : Exec γ} {f : α → Exec β}
    {f' : γ → Exec δ} {r : α → γ} {s : β → δ} (hx : x' = x.map r)
    (h : ∀ a, f' (r a) = (f a).map s) : (x' >>= f') = (x >>= f).map s := by
  subst hx
  cases x with
  | error e => rfl
  | ok a => exact h a

/-- Unwrapping commutes with mapping. -/
theorem orPanic_map (r : α → β) (o : Option α) : orPanic (o.map r) = (orPanic o).map r := by
  cases o <;> rfl

/-- A difference that is not below zero does not wrap. -/
theorem wrappingSub_of_le {w a b : ℕ} (h : b ≤ a) (ha : a < 2 ^ w) :
    wrappingSub w a b = a - b := by
  rw [wrappingSub, show a + 2 ^ w - b = a - b + 2 ^ w by omega, Nat.add_mod_right,
    Nat.mod_eq_of_lt (by omega)]

end Simp

end Eror.Model
