import Mathlib.Tactic

/-!
# Loops that record where they write

A loop over a mutable table tells nothing about how often a cell is assigned, since an earlier
value is gone.  A logged loop carries beside the table the list of the cells assigned so far.
`logged log cells x` is the computation `x` that assigns the given cells, with its log.  When each
round of a loop has this form, so has the loop (`foldlM_logged`), which says both that the
log does not change what is computed and which cells are in it.
-/

set_option autoImplicit false

namespace Library

universe u v

variable {m : Type u → Type v} [Monad m] {α σ τ γ : Type u}

/-- The computation `x`, and the log with the given cells added to it. -/
def logged (log cells : List γ) (x : m σ) : m (σ × List γ) := (fun s => (s, log ++ cells)) <$> x

variable [LawfulMonad m]

/-- What writes nothing is logged with an empty entry. -/
theorem pure_eq_logged (log : List γ) (s : σ) :
    (pure (s, log) : m (σ × List γ)) = logged log [] (pure s) := by
  rw [logged, map_pure, List.append_nil]

/-- One logged computation after the other. -/
theorem logged_bind (log cells cells' : List γ) (x : m σ) {f : σ → m τ}
    {f' : σ × List γ → m (τ × List γ)}
    (h : ∀ s, f' (s, log ++ cells) = logged (log ++ cells) cells' (f s)) :
    logged log cells x >>= f' = logged log (cells ++ cells') (x >>= f) := by
  simp only [logged, bind_map_left, map_bind, ← List.append_assoc] at h ⊢
  exact bind_congr h

/-- A computation that assigns nothing, and a logged one after it. -/
theorem bind_logged (log cells : List γ) (x : m σ) {f : σ → m τ} {f' : σ → m (τ × List γ)}
    (h : ∀ s, f' s = logged log cells (f s)) : x >>= f' = logged log cells (x >>= f) := by
  rw [logged, map_bind]
  exact bind_congr h

/-- **A loop of logged rounds is a logged loop.** -/
theorem foldlM_logged {f : σ → α → m σ} {f' : σ × List γ → α → m (σ × List γ)}
    {cells : α → List γ} (h : ∀ s log a, f' (s, log) a = logged log (cells a) (f s a))
    (l : List α) (s : σ) (log : List γ) :
    l.foldlM f' (s, log) = logged log (l.flatMap cells) (l.foldlM f s) := by
  induction l generalizing s log with
  | nil => exact pure_eq_logged log s
  | cons a l ih =>
      rw [List.foldlM_cons, List.foldlM_cons, List.flatMap_cons, h]
      exact logged_bind log (cells a) _ _ fun s' => ih s' (log ++ cells a)

end Library
