import Mathlib.Tactic

/-!
# Stacked layers

A layer is put on with `cover k` and taken off with `peel k`.  `coverAll ks` puts on one
layer for each key of `ks` so that the first key's layer is the outermost one, and
`peelAll ks` takes the layers off from the outside in.  When `peel k` undoes `cover k`,
peeling a prefix of the keys leaves exactly the layers of the other keys
(`peelAll_coverAll_append`); when `cover k` undoes `peel k` as well, covering again is a
way back from any number of peels (`coverAll_peelAll`).
-/

set_option autoImplicit false

namespace Library

section Layers

variable {κ σ : Type} (cover peel : κ → σ → σ)

/-- Put on the layers of `ks`, the first key's outermost. -/
def coverAll (ks : List κ) (s : σ) : σ := ks.foldr cover s

/-- Take off the layers of `ks`, the first key's first. -/
def peelAll (ks : List κ) (s : σ) : σ := ks.foldl (fun s k => peel k s) s

/-- Without keys there is no layer. -/
@[simp] theorem coverAll_nil (s : σ) : coverAll cover [] s = s := rfl

/-- The layer of the first key is outermost. -/
@[simp] theorem coverAll_cons (k : κ) (ks : List κ) (s : σ) :
    coverAll cover (k :: ks) s = cover k (coverAll cover ks s) := rfl

/-- Without keys nothing is removed. -/
@[simp] theorem peelAll_nil (s : σ) : peelAll peel [] s = s := rfl

/-- The layer of the first key is removed first. -/
@[simp] theorem peelAll_cons (k : κ) (ks : List κ) (s : σ) :
    peelAll peel (k :: ks) s = peelAll peel ks (peel k s) := rfl

variable {cover peel}

/-- Peeling the outer keys leaves the layers of the inner ones. -/
theorem peelAll_coverAll_append (h : ∀ k s, peel k (cover k s) = s) (ks ls : List κ) (s : σ) :
    peelAll peel ks (coverAll cover (ks ++ ls) s) = coverAll cover ls s := by
  induction ks with
  | nil => rfl
  | cons k ks ih => rw [List.cons_append, coverAll_cons, peelAll_cons, h, ih]

/-- All layers are removed when each one is. -/
theorem peelAll_coverAll (h : ∀ k s, peel k (cover k s) = s) (ks : List κ) (s : σ) :
    peelAll peel ks (coverAll cover ks s) = s := by
  have := peelAll_coverAll_append h ks [] s
  rwa [List.append_nil] at this

/-- What was removed can be put back. -/
theorem coverAll_peelAll (h : ∀ k s, cover k (peel k s) = s) (ks : List κ) (s : σ) :
    coverAll cover ks (peelAll peel ks s) = s := by
  induction ks generalizing s with
  | nil => rfl
  | cons k ks ih => rw [peelAll_cons, coverAll_cons, ih, h]

end Layers

end Library
