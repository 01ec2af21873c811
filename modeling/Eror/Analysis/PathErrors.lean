import Eror.Analysis.FormOnionSpec

/-!
# Which paths `form_onion` takes

`form_onion` returns a `Result`: a path that is longer than the limit is reported as
`PathTooLong` and a hop without a public key as `KeyNotFound`, on either of the two paths.  A
path without hops is checked nowhere.  The length check lets it pass, and the first use of its
first or last element panics (`formOnion_of_nil`).
-/

set_option autoImplicit false

namespace Eror.Analysis

open Library Model

variable {R : Type} {P : Primitives R} {w : ℕ} {F : OnionFormat P}

/-- One of the paths is longer than the format allows.  SRC: src/lib.rs:630-632 -/
def TooLong (F : OnionFormat P) (fwd bwd : List Address) : Prop :=
  fwd.length > F.pathLimit ∨ bwd.length > F.pathLimit

/-- Whether a path is too long can be decided. -/
instance (F : OnionFormat P) (fwd bwd : List Address) : Decidable (TooLong F fwd bwd) :=
  inferInstanceAs (Decidable (_ ∨ _))

/-- What a caller who handles errors can expect of a call of `form_onion` with two paths: it does
not panic, it reports a path that cannot be used, and it accepts any other pair of paths.
SRC: src/error.rs:5-46 -/
structure Reports {α : Type} (F : OnionFormat P) (fwd bwd : List Address) (r : Exec α) : Prop where
  noPanic : r ≠ .error .panic
  tooLong : r = .error (.err .pathTooLong) ↔ TooLong F fwd bwd
  noHop : ¬ TooLong F fwd bwd → fwd = [] ∨ bwd = [] → ∃ e, r = .error (.err e)
  missing : ¬ TooLong F fwd bwd → fwd ≠ [] → bwd ≠ [] →
    (∃ a ∈ fwd ++ bwd, F.pki.get a = none) → r = .error (.err .keyNotFound)
  usable : ¬ TooLong F fwd bwd → fwd ≠ [] → bwd ≠ [] →
    (∀ a ∈ fwd ++ bwd, (F.pki.get a).isSome) → ∃ v, r = .ok v

section Reports

variable {α : Type} {fwd bwd : List Address}

/-- Paths that are too long are reported as such. -/
theorem reports_of_tooLong (h : TooLong F fwd bwd) :
    Reports F fwd bwd (.error (.err .pathTooLong) : Exec α) where
  noPanic := by
    intro h
    cases h
  tooLong := iff_of_true rfl h
  noHop h' := absurd h h'
  missing h' := absurd h h'
  usable h' := absurd h h'

/-- Paths within the limit with an address that has no key are reported as such. -/
theorem reports_of_missing (h : ¬ TooLong F fwd bwd) (hfwd : fwd ≠ []) (hbwd : bwd ≠ [])
    (hmissing : ∃ a ∈ fwd ++ bwd, F.pki.get a = none) :
    Reports F fwd bwd (.error (.err .keyNotFound) : Exec α) where
  noPanic := by
    intro h
    cases h
  tooLong := by
    apply iff_of_false _ h
    intro h
    cases h
  noHop _ hnil := absurd hnil (not_or.mpr ⟨hfwd, hbwd⟩)
  missing _ _ _ _ := rfl
  usable _ _ _ hreg := absurd hmissing (isSome_iff_not_missing.mp hreg)

/-- Paths within the limit whose addresses have keys are taken. -/
theorem reports_of_registered (h : ¬ TooLong F fwd bwd) (hfwd : fwd ≠ []) (hbwd : bwd ≠ [])
    (hreg : ∀ a ∈ fwd ++ bwd, (F.pki.get a).isSome) (v : α) : Reports F fwd bwd (.ok v) where
  noPanic := by
    intro h
    cases h
  tooLong := by
    apply iff_of_false _ h
    intro h
    cases h
  noHop _ hnil := absurd hnil (not_or.mpr ⟨hfwd, hbwd⟩)
  missing _ _ _ hmissing := absurd hmissing (isSome_iff_not_missing.mp hreg)
  usable _ _ _ _ := ⟨v, rfl⟩

end Reports

variable [Rng R]

/-- `form_onion` looks at the lengths first.  SRC: src/lib.rs:630-632 -/
theorem formOnion_of_tooLong {fwd bwd : List Address} (h : TooLong F fwd bwd) (payload : Bytes)
    (rng : R) : F.formOnion fwd bwd payload rng = .error (.err .pathTooLong) := by
  rw [TooLong] at h
  unfold OnionFormat.formOnion
  rw [if_pos h]
  rfl

/-- **A path without hops panics**: the backward one in the subtraction or its collection, the
forward one at `last().unwrap()`.  SRC: src/lib.rs:640-645 -/
theorem formOnion_of_nil {fwd bwd : List Address} (h : ¬ TooLong F fwd bwd)
    (hnil : fwd = [] ∨ bwd = []) (payload : Bytes) (rng : R) :
    F.formOnion fwd bwd payload rng = .error .panic := by
  rw [TooLong] at h
  unfold OnionFormat.formOnion
  rw [if_neg h, draw_bind_ok (show draw P.randomKey rng = .ok (P.randomKey rng) from rfl)]
  cases hlast : bwd.getLast? with
  | none =>
      apply draw_bind_error
      apply draw_lift_error
      rw [orPanic_none]
  | some a =>
      have hfwd : fwd = [] := by
        rcases hnil with hfwd | hbwd
        · exact hfwd
        · rw [hbwd] at hlast
          cases hlast
      rw [draw_bind_ok (draw_lift_ok (orPanic_some a))]
      apply draw_bind_error
      apply draw_lift_error
      rw [hfwd]
      rfl

/-- INTERNAL: a hop that is not in the key store is reported from whichever path it is on.
SRC: src/lib.rs:656-676 -/
theorem formOnion_of_missing (hw : P.tagCodec.FixedWidth w) {fwd bwd : List Address}
    (h : ¬ TooLong F fwd bwd) (hfwd : fwd ≠ []) (hbwd : bwd ≠ [])
    (hmissing : ∃ a ∈ fwd ++ bwd, F.pki.get a = none) (payload : Bytes) (rng : R) :
    F.formOnion fwd bwd payload rng = .error (.err .keyNotFound) := by
  obtain ⟨hfwd', hbwd'⟩ := not_or.mp h
  rw [not_lt] at hfwd' hbwd'
  obtain ⟨key, -, hform⟩ := formOnion_eq hfwd hbwd hfwd' hbwd' payload rng
  have hkeysF := keysForward_length P (P.randomKey rng).1 fwd.length
  have hkeysB := keysBackward_length P (P.randomKey rng).1 (List.length_pos_of_ne_nil hbwd)
  rw [hform]
  by_cases hback : ∃ a ∈ bwd, F.pki.get a = none
  · rw [onionize_missing hbwd hkeysB hbwd' hback, error_bind]
  · have hreg : ∀ a ∈ bwd, (F.pki.get a).isSome := isSome_iff_not_missing.mpr hback
    have hfront : ∃ a ∈ fwd, F.pki.get a = none := by
      obtain ⟨a, ha, hget⟩ := hmissing
      rcases List.mem_append.mp ha with ha | ha
      · exact ⟨a, ha, hget⟩
      · exact absurd ⟨a, ha, hget⟩ hback
    obtain ⟨back₁, backₙ, tag, rng₁, hok⟩ := onionize_total hw hbwd hkeysB hbwd' hreg
      (OnionFormat.metaBackward fwd.length bwd.length)
      (.backward (randomPayload F key payload.length)) 0 (P.randomKey rng).2
    rw [hok, ok_bind]
    dsimp only
    rw [onionize_missing hfwd hkeysF hfwd' hfront, error_bind]

/-- **`form_onion` reports every path that it cannot use if and only if neither path is empty**
or the length check comes first.  SRC: src/lib.rs:423-479, 623-684 -/
theorem formOnion_reports_iff (hw : P.tagCodec.FixedWidth w) (F : OnionFormat P)
    (fwd bwd : List Address) (payload : Bytes) (rng : R) :
    Reports F fwd bwd (F.formOnion fwd bwd payload rng) ↔
      (fwd ≠ [] ∧ bwd ≠ []) ∨ TooLong F fwd bwd := by
  constructor
  · intro hreports
    by_cases hlong : TooLong F fwd bwd
    · exact Or.inr hlong
    · left
      by_contra hnil
      rw [not_and_or, not_not, not_not] at hnil
      exact hreports.noPanic (formOnion_of_nil hlong hnil payload rng)
  · intro hcases
    by_cases hlong : TooLong F fwd bwd
    · rw [formOnion_of_tooLong hlong]
      exact reports_of_tooLong hlong
    · obtain ⟨hfwd, hbwd⟩ := hcases.resolve_right hlong
      by_cases hmissing : ∃ a ∈ fwd ++ bwd, F.pki.get a = none
      · rw [formOnion_of_missing hw hlong hfwd hbwd hmissing]
        exact reports_of_missing hlong hfwd hbwd hmissing
      · have hreg : ∀ a ∈ fwd ++ bwd, (F.pki.get a).isSome := isSome_iff_not_missing.mpr hmissing
        obtain ⟨hfwd', hbwd'⟩ := not_or.mp hlong
        obtain ⟨v, hv⟩ := formOnion_total hw hfwd hbwd (not_lt.mp hfwd') (not_lt.mp hbwd')
          (fun a ha => hreg a (List.mem_append_left bwd ha))
          (fun a ha => hreg a (List.mem_append_right fwd ha)) payload rng
        rw [hv]
        exact reports_of_registered hlong hfwd hbwd hreg v

/-- One hop each way, both registered. -/
theorem formOnion_reports_iff_sample : ∃ v,
    (sampleFormat 3).formOnion [sampleAddress 7] [sampleAddress 9] [1] 0 = .ok v := by
  have hreports := (formOnion_reports_iff (Codec.array_fixedWidth 16) (sampleFormat 3)
    [sampleAddress 7] [sampleAddress 9] [1] (0 : ℕ)).mpr
      (Or.inl ⟨List.cons_ne_nil _ _, List.cons_ne_nil _ _⟩)
  exact hreports.usable (by decide) (List.cons_ne_nil _ _) (List.cons_ne_nil _ _)
    (fun _ _ => rfl)

/-- With no forward hop, or no backward hop, and nothing else wrong the call panics.
SRC: src/lib.rs:640-645 -/
theorem formOnion_reports_fails :
    (sampleFormat 3).formOnion [] [sampleAddress 9] [1] 0 = .error .panic ∧
      (sampleFormat 3).formOnion [sampleAddress 7] [] [1] 0 = .error .panic ∧
      ¬ Reports (sampleFormat 3) [] [sampleAddress 9]
        ((sampleFormat 3).formOnion [] [sampleAddress 9] [1] 0) := by
  have hforward := formOnion_of_nil (F := sampleFormat 3) (P := samplePrimitives)
    (show ¬ TooLong _ [] [sampleAddress 9] by decide) (Or.inl rfl) [1] (0 : ℕ)
  have hbackward := formOnion_of_nil (F := sampleFormat 3) (P := samplePrimitives)
    (show ¬ TooLong _ [sampleAddress 7] [] by decide) (Or.inr rfl) [1] (0 : ℕ)
  refine ⟨hforward, hbackward, ?_⟩
  intro hreports
  exact hreports.noPanic hforward

end Eror.Analysis
