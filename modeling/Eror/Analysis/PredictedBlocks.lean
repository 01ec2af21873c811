import Eror.Analysis.BlockLengths
import Eror.Library.WriteLog

/-!
# The table predicts what the hops generate

Unwrapping shifts the header (`shiftHeader`).  When that has been done with the first `i` keys,
to any header of the right number of blocks, its last `i` blocks are those of row `i` of the
table of `onionize`.

The second half is about the assignments to the table.  The loops that compute it also run over a
table that notes each of them (`LoggedTable`).  The notes do not change what is computed
(`fillTable_logged`), and no cell is noted twice (`nodup_writes`).
-/

set_option autoImplicit false

namespace Eror.Analysis

open Library Model

variable {R : Type} {P : Primitives R} {F : OnionFormat P}

/-! ## What the hops generate -/

/-- INTERNAL: on a header of as many blocks as the limit the shift is a register step.
SRC: src/lib.rs:560-569 -/
theorem shiftHeader_of_shape (ks : P.SymmetricKey) {header : List (Header P)}
    (hpos : 0 < F.pathLimit) (hlen : header.length = F.pathLimit) :
    shiftHeader F header ks =
      .ok ((shiftOut (decBlock P ks) (F.fillBlock ks) (headerBytes header)).map .raw) := by
  have hrounds : rounds F < header.length := by
    rw [rounds_of_pos hpos]
    omega
  rw [shiftHeader_eq ks hrounds, peelHeader_of_shape ks hpos hlen]

/-- INTERNAL: **a run of shifts** is a run of the register, and from the first one on the blocks
are raw.  SRC: src/lib.rs:560-569 -/
theorem foldlM_shiftHeader (keys : List P.SymmetricKey) {header : List (Header P)}
    (hpos : 0 < F.pathLimit) (hlen : header.length = F.pathLimit) :
    ∃ shifted, keys.foldlM (shiftHeader F) header = .ok shifted ∧
      shifted.length = F.pathLimit ∧
      headerBytes shifted = keys.foldl (fun bs k => shiftOut (decBlock P k) (F.fillBlock k) bs)
        (headerBytes header) ∧
      (keys ≠ [] → shifted = (headerBytes shifted).map .raw) := by
  induction keys using List.reverseRecOn with
  | nil => exact ⟨header, rfl, hlen, rfl, fun h => absurd rfl h⟩
  | append_singleton keys k ih =>
      obtain ⟨shifted, hrun, hshape, hbytes, -⟩ := ih
      have hstep := shiftHeader_of_shape k hpos hshape
      refine ⟨(shiftOut (decBlock P k) (F.fillBlock k) (headerBytes shifted)).map .raw, ?_, ?_, ?_,
        ?_⟩
      · rw [List.foldlM_append, hrun, ok_bind, List.foldlM_cons, hstep, ok_bind]
        rfl
      · rw [List.length_map, shiftOut_length, headerBytes_length, hshape]
        omega
      · rw [headerBytes_map_raw, hbytes, List.foldl_append]
        rfl
      · intro _
        rw [headerBytes_map_raw]

/-- **The last blocks after a run of shifts** are the blocks predicted from its keys, whatever the
header was.  SRC: src/lib.rs:462-473, 560-569 -/
theorem drop_foldlM_shiftHeader (keys : List P.SymmetricKey) {header : List (Header P)}
    (hpos : 0 < F.pathLimit) (hlen : header.length = F.pathLimit)
    (hkeys : keys.length ≤ F.pathLimit) :
    ∃ shifted, keys.foldlM (shiftHeader F) header = .ok shifted ∧
      shifted.length = F.pathLimit ∧
      shifted.drop (F.pathLimit - keys.length) = (fillers F keys).map .raw := by
  obtain ⟨shifted, hrun, hshape, hbytes, hraw⟩ := foldlM_shiftHeader keys hpos hlen
  refine ⟨shifted, hrun, hshape, ?_⟩
  by_cases hnil : keys = []
  · subst hnil
    exact List.drop_of_length_le hshape.le
  · have hlast := (drop_foldl_shiftOut (decBlock P) F.fillBlock keys
      ((headerBytes_length header).trans hlen) hkeys).2
    rw [hraw hnil, hbytes, ← List.map_drop, hlast, fillers]

/-! ## Assignments to the table -/

/-- A table, and the cells that have been assigned. -/
abbrev LoggedTable (P : Primitives R) := BlockTable P × List (ℕ × ℕ)

namespace LoggedTable

/-- `header_blocks[i][j] = h` -/
def set (t : LoggedTable P) (i j : ℕ) (h : Header P) : Exec (LoggedTable P) := do
  let table ← t.1.set i j h
  return (table, t.2 ++ [(i, j)])

/-- Nothing has been assigned to the table that the loops begin with. -/
instance : HeaderTable P (LoggedTable P) :=
  ⟨fun n => (BlockTable.empty P n, []), fun t => t.1.get, set⟩

end LoggedTable

/-- The table that the onion is built from.  SRC: src/lib.rs:462-479 -/
def fillTable {T : Type} [HeaderTable P T] [Rng R] (F : OnionFormat P)
    (keysSymmetric : List P.SymmetricKey) (n : ℕ) : Draw R T := do
  let t ← (F.headerBlocks keysSymmetric n : Exec _)
  F.fillGarbage n t

/-- The cells of row `i + 1` that are assigned in round `i` of the outer loop. -/
def rowWrites (N i : ℕ) : List (ℕ × ℕ) :=
  ((range (N - i - 1) (N - 1)).map fun j => (i + 1, j)) ++ [(i + 1, N - 1)]

/-- The cells that are assigned for a path of `n` hops, in the order of the assignments. -/
def writes (N n : ℕ) : List (ℕ × ℕ) :=
  (range 0 (n - 1)).flatMap (rowWrites N) ++
    (range 1 (N - n + 1)).map fun j => (n - 1, j)

/-! ### The notes -/

/-- An assignment is logged. -/
theorem set_logged (t : BlockTable P) (log : List (ℕ × ℕ)) (i j : ℕ) (h : Header P) :
    HeaderTable.set ((t, log) : LoggedTable P) i j h =
      logged log [(i, j)] (HeaderTable.set t i j h) := by
  change LoggedTable.set (t, log) i j h = _
  rw [LoggedTable.set, logged, ← bind_pure_comp]
  rfl

/-- The innermost loop writes its cell.  SRC: src/lib.rs:466-468 -/
theorem predictBlock_logged (k : P.SymmetricKey) (i : ℕ) (t : BlockTable P)
    (log : List (ℕ × ℕ)) (j : ℕ) :
    OnionFormat.predictBlock k i ((t, log) : LoggedTable P) j =
      logged log [(i + 1, j)] (OnionFormat.predictBlock k i t j) := by
  apply bind_logged
  intro block
  exact set_logged t log (i + 1) j _

/-- A row is written from its diagonal on.  SRC: src/lib.rs:464-473 -/
theorem predictRow_logged (keys : List P.SymmetricKey) (t : BlockTable P)
    (log : List (ℕ × ℕ)) (i : ℕ) : F.predictRow keys ((t, log) : LoggedTable P) i =
      logged log (rowWrites F.pathLimit i) (F.predictRow keys t i) := by
  apply bind_logged
  intro k
  rw [foldlM_logged (predictBlock_logged k i), ← List.map_eq_flatMap]
  apply logged_bind
  intro t'
  exact set_logged t' _ (i + 1) (F.pathLimit - 1) _

/-- All rows are written one after the other.  SRC: src/lib.rs:463-473 -/
theorem headerBlocks_logged (keys : List P.SymmetricKey) (n : ℕ) :
    (F.headerBlocks keys n : Exec (LoggedTable P)) =
      logged [] ((range 0 (n - 1)).flatMap (rowWrites F.pathLimit))
        (F.headerBlocks keys n : Exec (BlockTable P)) :=
  foldlM_logged (predictRow_logged keys) _ _ _

/-- The rest of the last row is written.  SRC: src/lib.rs:477-479 -/
theorem fillGarbage_logged [Rng R] (n : ℕ) (t : BlockTable P) (log : List (ℕ × ℕ)) :
    F.fillGarbage n ((t, log) : LoggedTable P) = logged log
      ((range 1 (F.pathLimit - n + 1)).map fun j => (n - 1, j)) (F.fillGarbage n t) := by
  rw [List.map_eq_flatMap]
  apply foldlM_logged
  intro t log j
  apply bind_logged
  intro block
  rw [set_logged, logged, liftM_map]
  rfl

/-- The table is filled as without a log, and the log is known beforehand. -/
theorem fillTable_logged [Rng R] (keys : List P.SymmetricKey) (n : ℕ) :
    (fillTable F keys n : Draw R (LoggedTable P)) =
      logged [] (writes F.pathLimit n) (fillTable F keys n : Draw R (BlockTable P)) := by
  rw [fillTable, headerBlocks_logged, logged, liftM_map]
  apply logged_bind
  intro t
  rw [List.nil_append, fillGarbage_logged]

/-! ### Each cell once -/

/-- The numbers of a range. -/
theorem mem_range {lo hi a : ℕ} : a ∈ range lo hi ↔ lo ≤ a ∧ a < hi := by
  rw [range, List.mem_range'_1]
  omega

/-- They are different. -/
theorem nodup_range (lo hi : ℕ) : (range lo hi).Nodup := List.nodup_range'

/-- The cells that a row writes. -/
theorem mem_rowWrites {N i : ℕ} (hN : 0 < N) {c : ℕ × ℕ} :
    c ∈ rowWrites N i ↔ c.1 = i + 1 ∧ N - i - 1 ≤ c.2 ∧ c.2 < N := by
  obtain ⟨a, j⟩ := c
  simp only [rowWrites, List.mem_append, List.mem_map, mem_range, List.mem_singleton,
    Prod.mk.injEq]
  constructor
  · rintro (⟨j', hj, rfl, rfl⟩ | ⟨rfl, rfl⟩) <;> omega
  · rintro ⟨rfl, hlo, hhi⟩
    by_cases hlast : j = N - 1
    · exact Or.inr ⟨rfl, hlast⟩
    · exact Or.inl ⟨j, by omega, rfl, rfl⟩

/-- They are different. -/
theorem nodup_rowWrites (N i : ℕ) : (rowWrites N i).Nodup := by
  apply List.Nodup.append
  · exact (nodup_range _ _).map fun j j' h => (Prod.mk.inj h).2
  · exact List.nodup_singleton _
  · rw [List.disjoint_singleton]
    intro hmem
    obtain ⟨j, hj, heq⟩ := List.mem_map.mp hmem
    rw [mem_range] at hj
    have := (Prod.mk.inj heq).2
    omega

/-- INTERNAL: **no cell is assigned twice.**  The rounds of the outer loop work on different rows,
and the random blocks of the last one stand before its predicted blocks.
SRC: src/lib.rs:464-465, 472, 477 -/
theorem nodup_writes {N n : ℕ} (hn : 1 ≤ n) (hN : n ≤ N) : (writes N n).Nodup := by
  apply List.Nodup.append
  · rw [List.nodup_flatMap]
    refine ⟨fun i _ => nodup_rowWrites N i, (nodup_range _ _).imp ?_⟩
    intro i i' hne c hc hc'
    rw [mem_rowWrites (by omega)] at hc hc'
    omega
  · exact (nodup_range _ _).map fun j j' h => (Prod.mk.inj h).2
  · intro c hrow hgarbage
    obtain ⟨i, hi, hc⟩ := List.mem_flatMap.mp hrow
    obtain ⟨j, hj, rfl⟩ := List.mem_map.mp hgarbage
    rw [mem_range] at hi hj
    rw [mem_rowWrites (by omega)] at hc
    omega

/-- INTERNAL: every block of the last row behind the first is assigned.
SRC: src/lib.rs:464-465, 472, 477 -/
theorem mem_writes {N n j : ℕ} (hn : 1 ≤ n) (hN : n ≤ N) (hj : 1 ≤ j) (hjN : j < N) :
    (n - 1, j) ∈ writes N n := by
  rw [writes, List.mem_append]
  by_cases hgarbage : j < N - n + 1
  · right
    exact List.mem_map.mpr ⟨j, mem_range.mpr ⟨hj, hgarbage⟩, rfl⟩
  · left
    refine List.mem_flatMap.mpr ⟨n - 2, mem_range.mpr ⟨Nat.zero_le _, by omega⟩, ?_⟩
    rw [mem_rowWrites (by omega)]
    dsimp only
    omega

/-! ## The filler table -/

/-- INTERNAL: the blocks of a row of the table that the hops generate.  SRC: src/lib.rs:464-473 -/
theorem drop_tableRow (ks : List P.SymmetricKey) :
    (tableRow F ks).drop (F.pathLimit - ks.length) = (fillers F ks).map .raw := by
  rw [tableRow, List.drop_left' List.length_replicate]

/-- INTERNAL: a block behind the first one of the row the onion is built from.
SRC: src/lib.rs:462-479 -/
theorem lastRow_block {garbage : List Bytes} {ks : List P.SymmetricKey} {j : ℕ} (hj : 1 ≤ j)
    (hlen : garbage.length + ks.length + 1 = F.pathLimit) (hjN : j < F.pathLimit)
    (hgarbage : ∀ bs ∈ garbage, bs.length = F.singleHeaderLength) :
    ∃ block, ((.raw [] : Header P) :: (garbage ++ fillers F ks).map .raw)[j]? = some block ∧
      block.intoBytes.length = F.singleHeaderLength := by
  obtain ⟨i, rfl⟩ := Nat.exists_eq_add_of_le' hj
  have hi : i < (garbage ++ fillers F ks).length := by
    rw [List.length_append, fillers_length]
    omega
  refine ⟨.raw (garbage ++ fillers F ks)[i], ?_, ?_⟩
  · rw [List.getElem?_cons_succ, List.getElem?_map, List.getElem?_eq_getElem hi, Option.map_some]
  · rw [Header.intoBytes_raw]
    rcases List.mem_append.mp (List.getElem_mem hi) with hmem | hmem
    · exact hgarbage _ hmem
    · exact block_fillers ks _ hmem

/-- **The table of predicted blocks is what the hops generate.**  For a path of `n` hops, the last
`i` blocks of row `i` are the last `i` blocks of any header after it has been shifted with the
first `i` keys; and when the last row has been filled up, each of its blocks behind the first has
been assigned exactly once and has the length of a single header.
SRC: src/lib.rs:462-479, 560-569 -/
theorem fillerTable_predicts [Rng R] (F : OnionFormat P) (keys : List P.SymmetricKey)
    (hpos : 1 ≤ keys.length) (hlen : keys.length ≤ F.pathLimit) :
    ∃ t : BlockTable P, F.headerBlocks keys keys.length = .ok t ∧
      (∀ i < keys.length, ∀ header : List (Header P), header.length = F.pathLimit →
        ∃ row shifted, t[i]? = some row ∧ row.length = F.pathLimit ∧
          (keys.take i).foldlM (shiftHeader F) header = .ok shifted ∧
          shifted.length = F.pathLimit ∧
          shifted.drop (F.pathLimit - i) = row.drop (F.pathLimit - i)) ∧
      ∀ rng : R, ∃ (filled : BlockTable P) (log : List (ℕ × ℕ)) (row : List (Header P)) (rng' : R),
        F.fillGarbage keys.length t rng = .ok (filled, rng') ∧
          fillTable F keys keys.length rng = .ok (((filled, log) : LoggedTable P), rng') ∧
          filled[keys.length - 1]? = some row ∧
          ∀ j, 1 ≤ j → j < F.pathLimit → log.count (keys.length - 1, j) = 1 ∧
            ∃ block, row[j]? = some block ∧
              block.intoBytes.length = F.singleHeaderLength := by
  obtain ⟨m, hm⟩ := Nat.exists_eq_add_of_le' hpos
  have hlast : m < keys.length := by omega
  obtain ⟨t, ht, -, hrows⟩ := headerBlocks_spec (F := F) hlast hlen
  rw [← hm] at ht
  refine ⟨t, ht, ?_, ?_⟩
  · intro i hi header hheader
    have htake : (keys.take i).length = i := List.length_take_of_le hi.le
    obtain ⟨shifted, hrun, hshape, hlast⟩ := drop_foldlM_shiftHeader (F := F) (keys.take i)
      (by omega) hheader (by omega)
    have hrow := drop_tableRow (F := F) (keys.take i)
    rw [htake] at hlast hrow
    refine ⟨tableRow F (keys.take i), shifted, hrows i (by omega), ?_, hrun, hshape, ?_⟩
    · exact tableRow_length _ (by omega)
    · rw [hlast, hrow]
  · intro rng
    obtain ⟨t', filled, rng', garbage, ht', hfill, hrow, hcount, hgarbage⟩ :=
      lastRow_spec (F := F) hm.symm hlen rng
    rw [← hm, ht] at ht'
    cases ht'
    rw [← hm] at hfill hcount
    have hfilled : fillTable F keys keys.length rng = .ok (filled, rng') := by
      rw [fillTable, ht]
      exact hfill
    refine ⟨filled, writes F.pathLimit keys.length, _, rng', hfill, ?_, by rwa [hm], ?_⟩
    · rw [fillTable_logged, logged]
      change (fillTable F keys keys.length rng).map _ = _
      rw [hfilled]
      rfl
    · intro j hj hjN
      constructor
      · exact List.count_eq_one_of_mem (nodup_writes hpos hlen) (mem_writes hpos hlen hj hjN)
      · apply lastRow_block hj _ hjN hgarbage
        rw [hcount, List.length_take_of_le (by omega)]
        omega

/-- Two keys. -/
def sampleKeys : List samplePrimitives.SymmetricKey :=
  [List.Vector.replicate 16 1, List.Vector.replicate 16 2]

/-- Two keys and a limit of three: the last block of a header of empty blocks after one shift is
the one in the table, and the random block is assigned once. -/
theorem fillerTable_predicts_sample : ∃ t : BlockTable samplePrimitives,
    (sampleFormat 3).headerBlocks sampleKeys 2 = .ok t ∧
    (∃ row shifted, t[1]? = some row ∧
      (sampleKeys.take 1).foldlM (shiftHeader (sampleFormat 3)) (List.replicate 3 (.raw [])) =
        .ok shifted ∧
      shifted.drop 2 = row.drop 2) ∧
    ∃ filled log rng', fillTable (sampleFormat 3) sampleKeys 2 (0 : ℕ) =
      .ok (((filled, log) : LoggedTable samplePrimitives), rng') ∧ log.count (1, 1) = 1 := by
  obtain ⟨t, ht, hshift, hfill⟩ := fillerTable_predicts (R := ℕ) (sampleFormat 3) sampleKeys
    (by decide) (by decide)
  obtain ⟨row, shifted, hrow, -, hrun, -, hlast⟩ := hshift 1 (by decide)
    (List.replicate 3 (.raw [])) rfl
  obtain ⟨filled, log, row', rng', -, hlogged, -, hblocks⟩ := hfill (0 : ℕ)
  exact ⟨t, ht, ⟨row, shifted, hrow, hrun, hlast⟩, filled, log, rng', hlogged,
    (hblocks 1 (by decide) (by decide)).1⟩

end Eror.Analysis
