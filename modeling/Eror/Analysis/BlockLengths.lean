import Eror.Analysis.OnionSize
import Eror.Analysis.PredictedOnion

/-!
# The blocks of an assembled onion

An assembled onion has a sealed block for each hop, whose length the primitives determine, and
behind them blocks that were filled in at the hand-counted length (`Assembled.block_lengths`).
When the two lengths are the same, the onion is well-formed (`Assembled.wellFormed`).
-/

set_option autoImplicit false

namespace Eror.Analysis

open Library Model

variable {R : Type} {P : Primitives R} {w c : ℕ} {F : OnionFormat P}

/-! ## The lengths of the blocks -/

/-- The lengths of the packed blocks. -/
def blockLengths (header : List (Header P)) : List ℕ := (headerBytes header).map List.length

/-- A layer puts a sealed block in front and drops the last block. -/
theorem blockLengths_coverPlan (hW : P.Widths w c) {p : HopPlan P} (hsealed : p.Sealed F)
    (s : LayerState P) : blockLengths (coverPlan P p s).1 =
      sealedLength P w c :: (blockLengths s.1).dropLast := by
  obtain ⟨pk, rng, -, hcipher⟩ := hsealed
  have hfront : (wrapBlock P p.key p.cipher s.1.dropLast s.2).length = sealedLength P w c := by
    rw [wrapBlock, hcipher]
    exact pack_cipher_length hW _ rng pk _
  rw [blockLengths, headerBytes_coverPlan, shiftIn, List.map_cons, hfront]
  congr 1
  apply List.ext_getElem
  · simp [blockLengths]
  · intro i h₁ h₂
    simp [blockLengths, encBlock]

/-- INTERNAL: each round of the loop of `wrap`s replaces a block at the end by a sealed one at
the front.  SRC: src/lib.rs:520-523 -/
theorem blockLengths_coverAll (hW : P.Widths w c) {plans : List (HopPlan P)}
    (hsealed : ∀ p ∈ plans, p.Sealed F) {s : LayerState P} {a b : ℕ}
    (h : blockLengths s.1 =
      List.replicate a (sealedLength P w c) ++ List.replicate b F.singleHeaderLength)
    (hle : plans.length ≤ b) : blockLengths (coverAll (coverPlan P) plans s).1 =
      List.replicate (plans.length + a) (sealedLength P w c) ++
        List.replicate (b - plans.length) F.singleHeaderLength := by
  induction plans with
  | nil => simpa using h
  | cons p plans ih =>
      rw [List.length_cons] at hle
      have hinner := ih (fun p' hp' => hsealed p' (by simp [hp'])) (by omega)
      have hb : b - plans.length = b - (plans.length + 1) + 1 := by omega
      rw [coverAll_cons, blockLengths_coverPlan hW (hsealed p (by simp)), hinner, hb,
        List.replicate_succ', ← List.append_assoc, List.dropLast_concat, List.length_cons,
        show plans.length + 1 + a = plans.length + a + 1 by omega, List.replicate_succ]
      rfl

/-- The fillers have the hand-counted length. -/
theorem block_fillers (ks : List P.SymmetricKey) :
    ∀ bs ∈ fillers F ks, bs.length = F.singleHeaderLength := by
  induction ks using List.reverseRecOn with
  | nil => simp [fillers, fillRows]
  | append_singleton ks k ih =>
      intro bs hbs
      rw [fillers, fillRows_append_singleton, fillRow, List.mem_append, List.mem_singleton] at hbs
      rcases hbs with hbs | rfl
      · obtain ⟨i, hi, rfl⟩ := List.mem_mapIdx.mp hbs
        rw [decBlock, P.symmetricDecrypt_length]
        exact ih _ (List.getElem_mem _)
      · exact fillBlock_length F k

section Assembled

variable {keys : List P.SymmetricKey} {hops : List Address} {hopMeta : Meta} {payload : Payload}
  {len : ℕ} {o₁ oₙ : Onion P} {tag : P.Tag} {init : List (HopPlan P)} {last : HopPlan P}
  {garbage : List Bytes}

/-- There is a plan for each hop. -/
theorem Assembled.hops_length
    (h : Assembled F keys hops hopMeta payload len o₁ oₙ tag init last garbage) :
    hops.length = init.length + 1 := by
  rw [← h.planned.hops, List.length_map, List.length_append, List.length_singleton]

/-- The path is within the limit. -/
theorem Assembled.hops_le
    (h : Assembled F keys hops hopMeta payload len o₁ oₙ tag init last garbage) :
    hops.length ≤ F.pathLimit := by
  rw [h.hops_length]
  exact h.limit

/-- The last hop receives one sealed block, and filled ones behind it.  SRC: src/lib.rs:462-518 -/
theorem Assembled.blockLengths_last (hW : P.Widths w c)
    (h : Assembled F keys hops hopMeta payload len o₁ oₙ tag init last garbage) :
    blockLengths oₙ.header =
      List.replicate 1 (sealedLength P w c) ++
        List.replicate (F.pathLimit - 1) F.singleHeaderLength := by
  obtain ⟨pk, rng, -, hcipher⟩ := h.planned.isSealed last (by simp)
  have hrest : (garbage ++ fillers F (init.map HopPlan.layerKey)).map List.length =
      List.replicate (F.pathLimit - 1) F.singleHeaderLength := by
    rw [List.eq_replicate_iff]
    constructor
    · have hlimit := h.limit
      rw [List.length_map, List.length_append, h.garbage_length, fillers_length, List.length_map]
      omega
    · intro n hn
      obtain ⟨bs, hbs, rfl⟩ := List.mem_map.mp hn
      rcases List.mem_append.mp hbs with hmem | hmem
      · exact h.garbage_block bs hmem
      · exact block_fillers _ bs hmem
  rw [blockLengths, h.header, taggedHeader, headerBytes_cons, headerBytes_map_raw, List.map_cons,
    hrest]
  refine congrArg₂ List.cons ?_ rfl
  change (HeaderBlock.pack _).length = _
  rw [hcipher]
  exact pack_cipher_length hW _ rng pk _

/-- **The lengths of all blocks of an assembled onion**: a sealed block for each hop, and filled
ones behind them.  SRC: src/lib.rs:462-538 -/
theorem Assembled.block_lengths (hW : P.Widths w c)
    (h : Assembled F keys hops hopMeta payload len o₁ oₙ tag init last garbage) :
    blockLengths o₁.header =
      List.replicate hops.length (sealedLength P w c) ++
        List.replicate (F.pathLimit - hops.length) F.singleHeaderLength := by
  have hlimit := h.limit
  have hhops := h.hops_length
  have hcover := blockLengths_coverAll hW (s := (oₙ.header, oₙ.forward))
    (fun p hp => h.planned.isSealed p (List.mem_append_left [last] hp))
    (h.blockLengths_last hW) (by omega)
  rw [h.layers] at hcover
  rw [hcover, hhops, Nat.sub_sub, Nat.add_comm 1 init.length]

/-! ### Addressability -/

/-- INTERNAL: counts and lengths fit into their fields when there are blocks of two lengths that
do.  SRC: src/lib.rs:304-312 -/
theorem addressable_of_blockLengths {header : List (Header P)} {a b s : ℕ}
    (h : blockLengths header = List.replicate a s ++ List.replicate b F.singleHeaderLength)
    (hcount : a + b ≤ F.pathLimit) (hs : s < 2 ^ 64)
    (hsingle : F.singleHeaderLength < 2 ^ 64) : AddressableHeader header := by
  have hlimit : F.pathLimit < 2 ^ 32 := F.maxPathLength.toNat_lt
  constructor
  · have hlen := congrArg List.length h
    rw [blockLengths, List.length_map, headerBytes_length, List.length_append,
      List.length_replicate, List.length_replicate] at hlen
    omega
  · intro block hblock
    have hmem : block.intoBytes.length ∈ blockLengths header :=
      List.mem_map_of_mem (List.mem_map_of_mem hblock)
    rw [h, List.mem_append, List.mem_replicate, List.mem_replicate] at hmem
    rcases hmem with ⟨-, hlen⟩ | ⟨-, hlen⟩ <;> rwa [hlen]

/-- The counts and lengths in the header of an assembled onion fit into their fields. -/
theorem Assembled.addressable (hW : P.Widths w c) (hsealed : sealedLength P w c < 2 ^ 64)
    (h : Assembled F keys hops hopMeta payload len o₁ oₙ tag init last garbage) :
    AddressableHeader o₁.header :=
  addressable_of_blockLengths (h.block_lengths hW) (Nat.add_sub_of_le h.hops_le).le hsealed
    (singleHeaderLength_lt hW F)

/-- So do those in the header that the last hop receives. -/
theorem Assembled.addressable_last (hW : P.Widths w c) (hsealed : sealedLength P w c < 2 ^ 64)
    (h : Assembled F keys hops hopMeta payload len o₁ oₙ tag init last garbage) :
    AddressableHeader oₙ.header := by
  have hlimit := h.limit
  exact addressable_of_blockLengths (h.blockLengths_last hW) (by omega) hsealed
    (singleHeaderLength_lt hW F)

/-! ### Well-formedness -/

/-- A header whose blocks all have the hand-counted length is well-formed. -/
theorem headerShape_of_blockLengths {header : List (Header P)} {a b : ℕ}
    (h : blockLengths header =
      List.replicate a F.singleHeaderLength ++ List.replicate b F.singleHeaderLength)
    (hcount : a + b = F.pathLimit) : HeaderShape F header := by
  rw [List.replicate_append_replicate, hcount, List.eq_replicate_iff] at h
  constructor
  · rw [← headerBytes_length, ← h.1, blockLengths, List.length_map]
  · intro bs hbs
    exact h.2 _ (List.mem_map_of_mem hbs)

/-- The predicted onion of the last hop is well-formed.  SRC: src/lib.rs:462-518 -/
theorem Assembled.wellFormed_last (hW : P.Widths w c) (hsum : w + c = 56)
    (h : Assembled F keys hops hopMeta payload len o₁ oₙ tag init last garbage) :
    oₙ.WellFormed F := by
  have hlimit := h.limit
  have hlengths := h.blockLengths_last hW
  rw [(sealedLength_eq_iff F).mpr hsum] at hlengths
  exact headerShape_of_blockLengths hlengths (by omega)

/-- **An assembled onion is well-formed**: no empty block is left.  SRC: src/lib.rs:462-538 -/
theorem Assembled.wellFormed (hW : P.Widths w c) (hsum : w + c = 56)
    (h : Assembled F keys hops hopMeta payload len o₁ oₙ tag init last garbage) :
    o₁.WellFormed F := by
  have hlengths := h.block_lengths hW
  rw [(sealedLength_eq_iff F).mpr hsum] at hlengths
  exact headerShape_of_blockLengths hlengths (Nat.add_sub_of_le h.hops_le)

end Assembled

/-- The length of a packed header whose blocks have two lengths. -/
theorem packed_length_of_blockLengths {header : List (Header P)} {a b s t : ℕ}
    (h : blockLengths header = List.replicate a s ++ List.replicate b t) :
    (Codec.bytes.list.encode (headerBytes header)).length =
      8 + (a * (8 + s) + b * (8 + t)) := by
  have hmap : (headerBytes header).map (fun bs => 8 + bs.length) =
      (blockLengths header).map (8 + ·) := by
    rw [blockLengths, List.map_map]
    rfl
  rw [Codec.list_bytes_length, hmap, h, List.map_append, List.map_replicate, List.map_replicate,
    List.sum_append, List.sum_replicate, List.sum_replicate, smul_eq_mul, smul_eq_mul]

end Eror.Analysis
