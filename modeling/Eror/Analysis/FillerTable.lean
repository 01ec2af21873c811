import Eror.Analysis.HopPlans

/-!
# The table of predicted blocks

`onionize` computes in a table which blocks at the end of a header the layers will generate.
Row `i` is about the header after `i` layers have been removed: its last `i` blocks are
predicted from the first `i` keys (`fillRows`), the others are left empty.  `RowsUpTo` is the
invariant of the outer loop.  `lastRow_spec` describes the row the onion is built from, after
its empty blocks have been filled at random: no empty block is left.
-/

set_option autoImplicit false

namespace Eror.Analysis

open Library Model

variable {R : Type} {P : Primitives R}

/-! ## Writing into a row -/

section Rows

variable {t : BlockTable P} {a : ℕ}

/-- A cell is read in its row. -/
theorem get_of_row {i j : ℕ} {row : List (Header P)} {h : Header P} (hrow : t[i]? = some row)
    (hh : row[j]? = some h) : t.get i j = .ok h := by
  rw [BlockTable.get, hrow, orPanic_some, ok_bind, hh, orPanic_some]

/-- A cell is assigned in its row. -/
theorem set_row (ha : a < t.length) (pre post : List (Header P)) (b h : Header P) :
    BlockTable.set (List.set t a (pre ++ b :: post)) a pre.length h =
      .ok (List.set t a (pre ++ h :: post)) := by
  have hrow : (List.set t a (pre ++ b :: post))[a]? = some (pre ++ b :: post) := by
    rw [List.getElem?_set_self ha]
  have hblock : (pre ++ b :: post)[pre.length]? = some b := by
    rw [List.getElem?_append_right le_rfl, Nat.sub_self, List.getElem?_cons_zero]
  rw [BlockTable.set, hrow, orPanic_some, ok_bind, hblock, orPanic_some, ok_bind,
    List.set_append_right _ _ le_rfl, Nat.sub_self, List.set_cons_zero, List.set_set]
  rfl

/-- INTERNAL: a loop that writes consecutive blocks of a row. -/
theorem foldlM_set_row (ha : a < t.length) {step : BlockTable P → ℕ → Exec (BlockTable P)}
    {g : ℕ → Header P} (pre mid post : List (Header P))
    (hstep : ∀ j row, pre.length ≤ j → j < pre.length + mid.length →
      step (List.set t a row) j = BlockTable.set (List.set t a row) a j (g j)) :
    (List.range' pre.length mid.length).foldlM step (List.set t a (pre ++ mid ++ post)) =
      .ok (List.set t a (pre ++ (List.range' pre.length mid.length).map g ++ post)) := by
  induction mid generalizing pre with
  | nil => rfl
  | cons b mid ih =>
      have hone : (pre ++ [g pre.length]).length = pre.length + 1 := by simp
      have hrest := ih (pre ++ [g pre.length]) fun j row h₁ h₂ =>
        hstep j row (by omega) (by rw [List.length_cons]; omega)
      rw [List.append_assoc, List.cons_append, List.length_cons, List.range'_succ,
        List.foldlM_cons, hstep _ _ le_rfl (by simp), set_row ha, ok_bind]
      rw [hone] at hrest
      simp only [List.append_assoc, List.map_cons, List.cons_append] at hrest ⊢
      exact hrest

/-- INTERNAL: the loop over the remaining cells of a row puts random blocks of the hand-counted
length there.  SRC: src/lib.rs:477-479 -/
theorem foldlM_randomHeader [Rng R] {F : OnionFormat P} (ha : a < t.length)
    (pre mid post : List (Header P)) (rng : R) : ∃ (garbage : List Bytes) (rng' : R),
      garbage.length = mid.length ∧ (∀ bs ∈ garbage, bs.length = F.singleHeaderLength) ∧
      ((List.range' pre.length mid.length).foldlM (fun (t : BlockTable P) j => do
          let block ← F.randomHeader
          (t.set a j block : Exec _)) (List.set t a (pre ++ mid ++ post)) : Draw R _) rng =
        .ok (List.set t a (pre ++ garbage.map .raw ++ post), rng') := by
  induction mid generalizing pre rng with
  | nil => exact ⟨[], rng, rfl, by simp, rfl⟩
  | cons b mid ih =>
      let first := genBytes F.singleHeaderLength rng
      obtain ⟨garbage, rng', hlen, hsingle, hrest⟩ := ih (pre ++ [.raw first.1]) first.2
      have hone : (pre ++ [(.raw first.1 : Header P)]).length = pre.length + 1 := by simp
      have hround : (do
          let block ← F.randomHeader
          (BlockTable.set (List.set t a (pre ++ b :: (mid ++ post))) a pre.length block :
            Exec _) : Draw R _) rng =
            .ok (List.set t a (pre ++ .raw first.1 :: (mid ++ post)), first.2) := by
        rw [draw_bind_ok (show F.randomHeader rng = .ok (.raw first.1, first.2) from rfl)]
        exact draw_lift_ok (set_row ha _ _ _ _)
      refine ⟨first.1 :: garbage, rng', by simp [hlen], ?_, ?_⟩
      · intro bs hbs
        rcases List.mem_cons.mp hbs with rfl | hbs
        · exact genBytes_length _ _
        · exact hsingle bs hbs
      · rw [List.append_assoc, List.cons_append, List.length_cons, List.range'_succ,
          List.foldlM_cons, draw_bind_ok hround]
        rw [hone] at hrest
        simp only [List.append_assoc, List.map_cons, List.cons_append] at hrest ⊢
        exact hrest

end Rows

/-! ## The invariant of the table -/

/-- The blocks that layers with the given keys generate at the end of a header. -/
def fillers (F : OnionFormat P) (ks : List P.SymmetricKey) : List Bytes :=
  fillRows F.pathLimit (decBlock P) F.fillBlock ks

/-- The row of the table that is computed from the given keys. -/
def tableRow (F : OnionFormat P) (ks : List P.SymmetricKey) : List (Header P) :=
  List.replicate (F.pathLimit - ks.length) (.raw []) ++ (fillers F ks).map .raw

/-- There is a filler for each key. -/
@[simp] theorem fillers_length (F : OnionFormat P) (ks : List P.SymmetricKey) :
    (fillers F ks).length = ks.length := fillRows_length ..

/-- The row of the given keys is filled in, and the rows below it are empty. -/
structure RowsUpTo (F : OnionFormat P) (ks : List P.SymmetricKey) (t : BlockTable P) : Prop where
  length : t.length = F.pathLimit
  row : t[ks.length]? = some (tableRow F ks)
  below : ∀ a, ks.length < a → a < F.pathLimit →
    t[a]? = some (List.replicate F.pathLimit (.raw []))

variable {F : OnionFormat P}

/-- The table without rows is the empty one. -/
theorem rowsUpTo_empty (hpos : 0 < F.pathLimit) :
    RowsUpTo F [] (BlockTable.empty P F.pathLimit) where
  length := List.length_replicate
  row := by
    rw [BlockTable.empty, List.length_nil, List.getElem?_replicate_of_lt hpos, tableRow]
    simp [fillers, fillRows]
  below a _ ha := List.getElem?_replicate_of_lt ha

/-- INTERNAL: the predicted blocks of one more layer, read off the row before.
SRC: src/lib.rs:465-469 -/
theorem range'_map_eq_fillers {ks : List P.SymmetricKey} (k : P.SymmetricKey)
    (h : ks.length + 1 < F.pathLimit) {g : ℕ → Header P}
    (hg : ∀ j b, (tableRow F ks)[j + 1]? = some b →
      g j = .raw (decBlock P k j b.intoBytes)) :
    (List.range' (F.pathLimit - ks.length - 1) ks.length).map g ++ [.raw (F.fillBlock k)] =
      (fillers F (ks ++ [k])).map .raw := by
  have hrow : fillers F (ks ++ [k]) = fillRow F.pathLimit (decBlock P k) (F.fillBlock k)
    (fillers F ks) := fillRows_append_singleton ..
  rw [hrow, fillRow, List.map_append, List.map_singleton]
  refine congrArg (· ++ _) (List.ext_getElem (by simp) fun i h₁ h₂ => ?_)
  have hi : i < (fillers F ks).length := by simpa using h₁
  have hread : (tableRow F ks)[F.pathLimit - ks.length - 1 + i + 1]? =
      some (.raw (fillers F ks)[i]) := by
    rw [tableRow, List.getElem?_append_right (by simp; omega), List.length_replicate,
      show F.pathLimit - ks.length - 1 + i + 1 - (F.pathLimit - ks.length) = i by omega]
    simp
  rw [List.getElem_map, List.getElem_range', Nat.one_mul, hg _ _ hread]
  simp

/-- A row has as many blocks as the limit. -/
theorem tableRow_length (ks : List P.SymmetricKey) (h : ks.length ≤ F.pathLimit) :
    (tableRow F ks).length = F.pathLimit := by
  simp [tableRow]
  omega

/-- Assigning what is there changes nothing. -/
theorem set_of_getElem? {t : BlockTable P} {a : ℕ} {row : List (Header P)}
    (h : t[a]? = some row) : List.set t a row = t := by
  obtain ⟨ha, rfl⟩ := List.getElem?_eq_some_iff.mp h
  exact List.set_getElem_self ha

/-- A cell of the next row is the block behind it, decrypted.  SRC: src/lib.rs:466-468 -/
theorem predictBlock_eq {ks : List P.SymmetricKey} (k : P.SymmetricKey) {t : BlockTable P}
    (ht : RowsUpTo F ks t) (hks : ks.length < F.pathLimit) (row : List (Header P)) {j : ℕ}
    (hj : j + 1 < F.pathLimit) :
    OnionFormat.predictBlock k ks.length (List.set t (ks.length + 1) row) j =
      BlockTable.set (List.set t (ks.length + 1) row) (ks.length + 1) j
        (.raw (decBlock P k j ((tableRow F ks)[j + 1]?.getD (.raw [])).intoBytes)) := by
  have hrow : (List.set t (ks.length + 1) row)[ks.length]? = some (tableRow F ks) := by
    rw [List.getElem?_set_ne (by omega), ht.row]
  have hlt : j + 1 < (tableRow F ks).length := by rwa [tableRow_length ks hks.le]
  have hblock := List.getElem?_eq_getElem hlt
  rw [OnionFormat.predictBlock, BlockTable.headerTable_get, get_of_row hrow hblock, ok_bind, hblock]
  rfl

/-- INTERNAL: **one round of the outer loop** writes the row below from the row of the keys so
far.  SRC: src/lib.rs:464-473 -/
theorem predictRow_eq {ks keys : List P.SymmetricKey} {k : P.SymmetricKey} {t : BlockTable P}
    (ht : RowsUpTo F ks t) (hk : keys[ks.length]? = some k) (h : ks.length + 1 < F.pathLimit) :
    F.predictRow keys t ks.length =
      .ok (List.set t (ks.length + 1) (tableRow F (ks ++ [k]))) := by
  have ha : ks.length + 1 < t.length := by rw [ht.length]; exact h
  -- the empty row, split into what stays empty, what the loop fills, and the last block
  let pre : List (Header P) := List.replicate (F.pathLimit - ks.length - 1) (.raw [])
  let mid : List (Header P) := List.replicate ks.length (.raw [])
  have hpre : pre.length = F.pathLimit - ks.length - 1 := List.length_replicate
  have hmid : mid.length = ks.length := List.length_replicate
  have hempty : List.replicate F.pathLimit (.raw [] : Header P) = pre ++ mid ++ [.raw []] := by
    rw [List.replicate_append_replicate, ← List.replicate_succ']
    congr 1
    omega
  have hstart : List.set t (ks.length + 1) (pre ++ mid ++ [.raw []]) = t := by
    rw [← hempty]
    exact set_of_getElem? (ht.below _ (Nat.lt_succ_self _) h)
  let g : ℕ → Header P := fun j =>
    .raw (decBlock P k j ((tableRow F ks)[j + 1]?.getD (.raw [])).intoBytes)
  have hstep : ∀ j row, pre.length ≤ j → j < pre.length + mid.length →
      OnionFormat.predictBlock k ks.length (List.set t (ks.length + 1) row) j =
        BlockTable.set (List.set t (ks.length + 1) row) (ks.length + 1) j (g j) :=
    fun j row _ hj => predictBlock_eq k ht (by omega) row (by omega)
  have hloop := foldlM_set_row ha pre mid [.raw []] hstep
  rw [hstart, hpre, hmid] at hloop
  have hrange : range (F.pathLimit - ks.length - 1) (F.pathLimit - 1) =
      List.range' (F.pathLimit - ks.length - 1) ks.length := by
    rw [range]
    congr 1
    omega
  have hrow : pre ++ (List.range' (F.pathLimit - ks.length - 1) ks.length).map g ++
      [.raw (F.fillBlock k)] = tableRow F (ks ++ [k]) := by
    rw [List.append_assoc, range'_map_eq_fillers k h, tableRow, List.length_append,
      List.length_singleton, ← Nat.sub_sub]
    intro j b hb
    simp only [g, hb, Option.getD_some]
  have hlast : (pre ++ (List.range' (F.pathLimit - ks.length - 1) ks.length).map g).length =
      F.pathLimit - 1 := by
    rw [List.length_append, hpre, List.length_map, List.length_range']
    omega
  have hset := set_row ha (pre ++ (List.range' (F.pathLimit - ks.length - 1) ks.length).map g) []
    (.raw []) (.raw (F.fillBlock k))
  rw [hlast, hrow] at hset
  rw [OnionFormat.predictRow, hk, orPanic_some, ok_bind, hrange, hloop, ok_bind,
    BlockTable.headerTable_set, hset]

/-- INTERNAL: the invariant holds of the table with one more row. -/
theorem RowsUpTo.set {ks : List P.SymmetricKey} {t : BlockTable P} (ht : RowsUpTo F ks t)
    (k : P.SymmetricKey) (h : ks.length + 1 < F.pathLimit) :
    RowsUpTo F (ks ++ [k]) (List.set t (ks.length + 1) (tableRow F (ks ++ [k]))) where
  length := by rw [List.length_set, ht.length]
  row := by
    rw [List.length_append, List.length_singleton, List.getElem?_set_self]
    rw [ht.length]
    exact h
  below a hlt hlt' := by
    rw [List.length_append, List.length_singleton] at hlt
    rw [List.getElem?_set_ne (by omega), ht.below a (by omega) hlt']

/-- **The deterministic blocks.**  Each row of the table is the row of the keys before it.
SRC: src/lib.rs:462-473 -/
theorem headerBlocks_spec {keys : List P.SymmetricKey} {m : ℕ} (hm : m < keys.length)
    (hlen : keys.length ≤ F.pathLimit) :
    ∃ t : BlockTable P, F.headerBlocks keys (m + 1) = .ok t ∧ RowsUpTo F (keys.take m) t ∧
      ∀ i ≤ m, t[i]? = some (tableRow F (keys.take i)) := by
  rw [OnionFormat.headerBlocks, Nat.add_sub_cancel, range_zero, BlockTable.headerTable_empty]
  induction m with
  | zero =>
      have hempty := rowsUpTo_empty (F := F) (by omega)
      refine ⟨_, rfl, hempty, ?_⟩
      intro i hi
      obtain rfl : i = 0 := Nat.le_zero.mp hi
      exact hempty.row
  | succ m ih =>
      obtain ⟨t, ht, hrows, habove⟩ := ih (by omega)
      have htake : (keys.take m).length = m := List.length_take_of_le (by omega)
      have hk : keys[(keys.take m).length]? = some keys[m] := by
        rw [htake, List.getElem?_eq_getElem (by omega)]
      have hround := predictRow_eq hrows hk (by omega)
      have hrows' := hrows.set keys[m] (by omega)
      rw [htake] at hround hrows'
      rw [← List.take_succ_eq_append_getElem (by omega)] at hround hrows'
      refine ⟨_, ?_, hrows', ?_⟩
      · rw [List.range_succ, List.foldlM_append, ht, ok_bind, List.foldlM_cons, hround, ok_bind]
        rfl
      · intro i hi
        rcases Nat.lt_or_ge m i with hlast | hprev
        · obtain rfl : i = m + 1 := by omega
          have hrow := hrows'.row
          rwa [List.length_take_of_le (by omega)] at hrow
        · rw [List.getElem?_set_ne (by omega), habove i hprev]

/-- **The row the onion is built from.**  All of its blocks behind the first have the length of
a single header, and the last ones are the predicted blocks of all keys but the last.
SRC: src/lib.rs:462-479 -/
theorem lastRow_spec [Rng R] {keys : List P.SymmetricKey} {m : ℕ} (hm : m + 1 = keys.length)
    (hlen : keys.length ≤ F.pathLimit) (rng : R) :
    ∃ (t t' : BlockTable P) (rng' : R) (garbage : List Bytes),
      F.headerBlocks keys (m + 1) = .ok t ∧
      F.fillGarbage (m + 1) t rng = .ok (t', rng') ∧
      t'[m]? = some (.raw [] :: (garbage ++ fillers F (keys.take m)).map .raw) ∧
      garbage.length = F.pathLimit - (m + 1) ∧
      ∀ bs ∈ garbage, bs.length = F.singleHeaderLength := by
  obtain ⟨t, ht, hrows, -⟩ := headerBlocks_spec (F := F) (m := m) (by omega) hlen
  have htake : (keys.take m).length = m := List.length_take_of_le (by omega)
  have ha : m < t.length := by rw [hrows.length]; omega
  have hrow := hrows.row
  rw [htake] at hrow
  let mid : List (Header P) := List.replicate (F.pathLimit - (m + 1)) (.raw [])
  have hmid : mid.length = F.pathLimit - (m + 1) := List.length_replicate
  have hsplit : tableRow F (keys.take m) =
      [.raw []] ++ mid ++ (fillers F (keys.take m)).map .raw := by
    rw [tableRow, htake, show F.pathLimit - m = F.pathLimit - (m + 1) + 1 by omega,
      List.replicate_succ]
    rfl
  obtain ⟨garbage, rng', hgarbage, hsingle, hloop⟩ := foldlM_randomHeader (F := F) ha [.raw []]
    mid ((fillers F (keys.take m)).map .raw) rng
  rw [← hsplit, set_of_getElem? hrow, hmid] at hloop
  have hrange : range 1 (F.pathLimit - (m + 1) + 1) = List.range' 1 (F.pathLimit - (m + 1)) := rfl
  refine ⟨t, List.set t m ([.raw []] ++ garbage.map .raw ++ (fillers F (keys.take m)).map .raw),
    rng', garbage, ht, ?_, ?_, hgarbage.trans hmid, hsingle⟩
  · rw [OnionFormat.fillGarbage, hrange]
    exact hloop
  · rw [List.getElem?_set_self ha, List.map_append]
    rfl

end Eror.Analysis
