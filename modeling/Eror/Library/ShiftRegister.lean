import Mathlib.Tactic

/-!
# A register of blocks that shifts by one place

A register is a list of `N` blocks.  `shiftOut` removes the front block, moves every other
one down a place and appends a block that depends on the key only; `shiftIn` puts a new
front block before the others and drops the last one.  Both rewrite each block they move
with a map that may depend on its place, as a cipher with a per-place nonce does.

`shiftIn` undoes `shiftOut` on every register.  `shiftOut` undoes `shiftIn` exactly when
the block that `shiftIn` drops is the one `shiftOut` appends.  Whoever builds a register
from the inside out therefore has to predict the trailing blocks: `fillRows` computes,
from the keys alone, the last `i` blocks after `i` shifts (`drop_foldl_shiftOut`), and
`drop_shiftIn_fillRow` carries the prediction back through one `shiftIn`.
-/

set_option autoImplicit false

namespace Library

variable {κ β : Type}

/-- Remove the front block, move the others down through `dec`, and append `fill`. -/
def shiftOut (dec : ℕ → β → β) (fill : β) (bs : List β) : List β := bs.tail.mapIdx dec ++ [fill]

/-- Put `front` before the other blocks, moved up through `enc`, and drop the last one. -/
def shiftIn (enc : ℕ → β → β) (front : β) (bs : List β) : List β :=
  front :: bs.dropLast.mapIdx enc

/-- The predicted trailing blocks after one more shift of a register of `N` blocks. -/
def fillRow (N : ℕ) (dec : ℕ → β → β) (fill : β) (row : List β) : List β :=
  row.mapIdx (fun t b => dec (N - row.length - 1 + t) b) ++ [fill]

/-- The predicted trailing blocks after a shift with each of the keys. -/
def fillRows (N : ℕ) (dec : κ → ℕ → β → β) (fill : κ → β) (ks : List κ) : List β :=
  ks.foldl (fun row k => fillRow N (dec k) (fill k) row) []

/-- Shifting out keeps the number of blocks. -/
@[simp] theorem shiftOut_length (dec : ℕ → β → β) (fill : β) (bs : List β) :
    (shiftOut dec fill bs).length = bs.length - 1 + 1 := by
  simp [shiftOut]

/-- Shifting in keeps the number of blocks. -/
@[simp] theorem shiftIn_length (enc : ℕ → β → β) (front : β) (bs : List β) :
    (shiftIn enc front bs).length = bs.length - 1 + 1 := by
  simp [shiftIn]

/-- Each round makes the row one block longer. -/
@[simp] theorem fillRow_length (N : ℕ) (dec : ℕ → β → β) (fill : β) (row : List β) :
    (fillRow N dec fill row).length = row.length + 1 := by
  simp [fillRow]

/-- The last key makes the last row. -/
theorem fillRows_append_singleton (N : ℕ) (dec : κ → ℕ → β → β) (fill : κ → β) (ks : List κ)
    (k : κ) : fillRows N dec fill (ks ++ [k]) =
      fillRow N (dec k) (fill k) (fillRows N dec fill ks) := by
  simp [fillRows]

/-- The row is as long as there were rounds. -/
@[simp] theorem fillRows_length (N : ℕ) (dec : κ → ℕ → β → β) (fill : κ → β) (ks : List κ) :
    (fillRows N dec fill ks).length = ks.length := by
  induction ks using List.reverseRecOn with
  | nil => rfl
  | append_singleton ks k ih => simp [fillRows_append_singleton, ih]

/-- What is inverse in every place is inverse on the whole list. -/
theorem mapIdx_mapIdx_cancel (f g : ℕ → β → β) (h : ∀ i b, g i (f i b) = b) (bs : List β) :
    (bs.mapIdx f).mapIdx g = bs := by
  rw [List.mapIdx_mapIdx]
  apply List.ext_getElem
  · simp
  · intro i h₁ h₂
    simp [h]

/-- What shifting out makes of blocks that were moved up behind a front block. -/
theorem shiftOut_cons_mapIdx {enc dec : ℕ → β → β} (h : ∀ i b, dec i (enc i b) = b)
    (fill front : β) (bs : List β) : shiftOut dec fill (front :: bs.mapIdx enc) = bs ++ [fill] := by
  rw [shiftOut, List.tail_cons, mapIdx_mapIdx_cancel _ _ h]

/-- Shifting out undoes shifting in when the dropped block is the appended one. -/
theorem shiftOut_shiftIn {enc dec : ℕ → β → β} {fill front : β} {bs : List β}
    (h : ∀ i b, dec i (enc i b) = b) (hne : bs ≠ []) (hlast : bs.getLast hne = fill) :
    shiftOut dec fill (shiftIn enc front bs) = bs := by
  rw [shiftIn, shiftOut_cons_mapIdx h, ← hlast, List.dropLast_append_getLast]

/-- Shifting in undoes shifting out on every register, up to the front block that is put in. -/
theorem shiftIn_shiftOut {enc dec : ℕ → β → β} (h : ∀ i b, enc i (dec i b) = b)
    (fill front : β) (bs : List β) :
    shiftIn enc front (shiftOut dec fill bs) = front :: bs.tail := by
  rw [shiftOut, shiftIn, List.dropLast_concat, mapIdx_mapIdx_cancel _ _ h]

/-- The places of what is left are counted from where it began. -/
theorem drop_mapIdx (f : ℕ → β → β) (bs : List β) (m : ℕ) :
    (bs.mapIdx f).drop m = (bs.drop m).mapIdx fun t b => f (m + t) b := by
  apply List.ext_getElem
  · simp
  · intro i h₁ h₂
    simp

/-- **The forward step of the prediction.**  If the last blocks of a register are `row`, then
after a shift they are the predicted row. -/
theorem drop_shiftOut {N : ℕ} (dec : ℕ → β → β) (fill : β) {bs row : List β}
    (hlen : bs.length = N) (hrow : row.length < N) (h : bs.drop (N - row.length) = row) :
    (shiftOut dec fill bs).drop (N - (row.length + 1)) = fillRow N dec fill row := by
  have htail : bs.tail.drop (N - row.length - 1) = row := by
    rw [← List.drop_one, List.drop_drop, show 1 + (N - row.length - 1) = N - row.length by omega, h]
  rw [shiftOut, fillRow, List.drop_append_of_le_length (by simp; omega), drop_mapIdx,
    show N - (row.length + 1) = N - row.length - 1 by omega, htail]

/-- **The backward step of the prediction.**  If the last blocks of a register are the
predicted row, then before the shift they were the row it was predicted from. -/
theorem drop_shiftIn_fillRow {N : ℕ} {enc dec : ℕ → β → β} {fill : β} (front : β)
    {bs row : List β} (hinv : ∀ i b, enc i (dec i b) = b) (hrow : row.length < N)
    (h : bs.drop (N - (row.length + 1)) = fillRow N dec fill row) :
    (shiftIn enc front bs).drop (N - row.length) = row := by
  obtain ⟨m, hm⟩ : ∃ m, N - row.length = m + 1 := ⟨N - row.length - 1, by omega⟩
  have hdrop : bs.dropLast.drop m = row.mapIdx fun t b => dec (m + t) b := by
    rw [show N - (row.length + 1) = m by omega] at h
    rw [← List.dropLast_drop_eq_drop_dropLast, h, fillRow, List.dropLast_concat,
      show N - row.length - 1 = m by omega]
  rw [hm, shiftIn, List.drop_succ_cons, drop_mapIdx, hdrop]
  exact mapIdx_mapIdx_cancel _ _ (fun i b => hinv (m + i) b) row

/-- INTERNAL: the last block of a register that ends in a predicted row. -/
theorem getLast_of_drop_fillRow {N : ℕ} {dec : ℕ → β → β} {fill : β} {bs row : List β}
    (hne : bs ≠ []) (h : bs.drop (N - (row.length + 1)) = fillRow N dec fill row) :
    bs.getLast hne = fill := by
  have hsuffix : fillRow N dec fill row <:+ bs := h ▸ List.drop_suffix _ _
  obtain ⟨pre, hpre⟩ := hsuffix
  subst hpre
  simp [fillRow]

/-- **The prediction is what the shifts generate.**  Whatever the register holds, after a
shift with each of the keys its last blocks are the predicted row. -/
theorem drop_foldl_shiftOut {N : ℕ} (dec : κ → ℕ → β → β) (fill : κ → β) (ks : List κ)
    {bs : List β} (hlen : bs.length = N) (hks : ks.length ≤ N) :
    (ks.foldl (fun bs k => shiftOut (dec k) (fill k) bs) bs).length = N ∧
      (ks.foldl (fun bs k => shiftOut (dec k) (fill k) bs) bs).drop (N - ks.length) =
        fillRows N dec fill ks := by
  induction ks using List.reverseRecOn with
  | nil => simp [hlen, fillRows]
  | append_singleton ks k ih =>
      rw [List.length_append, List.length_singleton] at hks
      obtain ⟨ihlen, ih⟩ := ih (by omega)
      rw [List.foldl_append, List.foldl_cons, List.foldl_nil, fillRows_append_singleton]
      refine ⟨by rw [shiftOut_length, ihlen]; omega, ?_⟩
      have hrow : (fillRows N dec fill ks).length = ks.length := fillRows_length ..
      have hlt : (fillRows N dec fill ks).length < N := by omega
      rw [← drop_shiftOut (dec k) (fill k) ihlen hlt (by rw [hrow]; exact ih), hrow,
        List.length_append, List.length_singleton]

end Library
