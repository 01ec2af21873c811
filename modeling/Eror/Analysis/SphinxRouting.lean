import Eror.Interface.SphinxNetwork
import Eror.Library.StreamTower

/-!
# The routing information of a Sphinx header

What the sender builds from the inside out is a tower of stream-cipher layers over the final hop's
routing information, and what a hop does with it is to peel one of them (`unwrap_eq`).  The filler
that ends the final hop's part is the one of the library (`fillerNew_eq`), so every forward hop
finds its own block and the next hop's routing information (`unwrap_forward`), and the final hop
the destination (`forFinalHop_spec`).
-/

set_option autoImplicit false

namespace Eror.Analysis.Sphinx

open Library Model.Sphinx
open Model (Rng genBytes genBytes_length)

variable {C : Crates}

/-- The keystreams of all hops are of one length. -/
theorem hopKeystream_length (key : Arr streamCipherKeySize) :
    (hopKeystream C key).length = streamCipherOutputLength :=
  C.aes128Ctr_length _ _ _

/-- A keystream is a block longer than the routing information. -/
theorem hopKeystream_length_add (key : Arr streamCipherKeySize) :
    (hopKeystream C key).length = encryptedRoutingInfoSize + fillerStepSizeIncrease :=
  C.aes128Ctr_length _ _ _

/-! ## The filler -/

/-- Within the length of a route no assertion of a round fails.
SRC: sphinx/src/header/filler.rs:53-77 -/
theorem fillerStep_eq {acc s : Bytes} {i : ℕ}
    (hs : s.length = encryptedRoutingInfoSize + fillerStepSizeIncrease)
    (hacc : acc.length = i * fillerStepSizeIncrease) (hi : i ≤ maxPathLength) :
    Filler.fillerStep acc (i + 1) s = .ok (Library.fillerStep (· ^^^ ·) 0
      encryptedRoutingInfoSize fillerStepSizeIncrease acc s) := by
  have hprevious : acc.length = fillerStepSizeIncrease * (i + 1 - 1) := by
    rw [hacc, Nat.add_sub_cancel, Nat.mul_comm]
  have hlen : (i + 1) * fillerStepSizeIncrease ≤ s.length := by
    simp only [hs, sizes] at hi ⊢
    omega
  have hstart : s.length - (i + 1) * fillerStepSizeIncrease =
      encryptedRoutingInfoSize - acc.length := by
    simp only [hs, hacc, sizes] at hi ⊢
    omega
  have hxor : (acc ++ List.replicate fillerStepSizeIncrease 0).length =
      (s.drop (encryptedRoutingInfoSize - acc.length)).length := by
    simp only [List.length_append, List.length_replicate, List.length_drop, hs, hacc, sizes]
      at hi ⊢
    omega
  rw [Filler.fillerStep, assert_of (show s.length = streamCipherOutputLength from hs), ok_bind,
    assert_of hprevious, ok_bind]
  dsimp only
  rw [sub_of_le hlen, ok_bind, sliceFrom_of_le (Nat.sub_le _ _), ok_bind, hstart, xor_of hxor]
  rfl

/-- INTERNAL: **the filler** of a header is what the peeling makes of the zeros.
SRC: sphinx/src/header/filler.rs:28-51 -/
theorem fillerNew_eq {keys : List RoutingKeys} (h : keys.length ≤ maxPathLength) :
    Filler.new C keys = .ok (Library.filler (· ^^^ ·) 0 encryptedRoutingInfoSize
      fillerStepSizeIncrease (keys.map fun k => hopKeystream C k.streamCipherKey)) := by
  rw [Filler.new, assert_of h, ok_bind]
  dsimp only
  have hstreams : ∀ s ∈ keys.map fun k => hopKeystream C k.streamCipherKey,
      s.length = encryptedRoutingInfoSize + fillerStepSizeIncrease := by
    intro s hs
    obtain ⟨k, -, rfl⟩ := List.mem_map.mp hs
    exact hopKeystream_length_add _
  have hlen : (keys.map fun k => hopKeystream C k.streamCipherKey).length ≤ maxPathLength := by
    rwa [List.length_map]
  generalize keys.map (fun k => hopKeystream C k.streamCipherKey) = streams at hstreams hlen
  induction streams using List.reverseRecOn with
  | nil => rfl
  | append_singleton streams s ih =>
      rw [List.length_append, List.length_singleton] at hlen
      have habove : ∀ s ∈ streams,
          s.length = encryptedRoutingInfoSize + fillerStepSizeIncrease :=
        fun s' hs' => hstreams s' (List.mem_append_left _ hs')
      have hs := hstreams s (List.mem_append_right _ List.mem_cons_self)
      rw [List.zipIdx_append, List.foldlM_append, ih habove (by omega), ok_bind,
        filler_append_singleton]
      simp only [List.zipIdx_cons, List.zipIdx_nil, List.foldlM_cons, List.foldlM_nil, zero_add]
      rw [fillerStep_eq hs _ (by omega), ok_bind]
      · rfl
      · apply filler_length habove
        simp only [sizes] at hlen ⊢
        omega

/-! ## Forward hops -/

/-- What the routing information of a forward hop begins with: where the packet goes, after which
delay, and the MAC of the next hop's routing information. -/
def metaBlock (nodeAddress : Arr nodeAddressLength) (delay : Delay) (mac : HeaderIntegrityMac) :
    Bytes :=
  forwardHop :: (version ++ nodeAddress.toList ++ delay.toBytes.toList ++ mac.toList)

/-- What a forward hop learns and the MAC are as long as the filler grows. -/
@[simp] theorem metaBlock_length (nodeAddress : Arr nodeAddressLength) (delay : Delay)
    (mac : HeaderIntegrityMac) :
    (metaBlock nodeAddress delay mac).length = fillerStepSizeIncrease := by
  simp [metaBlock, version, sizes]

/-- A hop's share stands before what fits of the next hop's routing information. -/
theorem concatenateComponents_eq (nodeAddress : Arr nodeAddressLength) (delay : Delay)
    (next : EncapsulatedRoutingInformation) :
    RoutingInformation.concatenateComponents nodeAddress delay next =
      metaBlock nodeAddress delay next.integrityMac ++ next.encRoutingInformation.toList.take
        (encryptedRoutingInfoSize - fillerStepSizeIncrease) := rfl

/-- So the routing information keeps its length. -/
theorem concatenateComponents_length (nodeAddress : Arr nodeAddressLength) (delay : Delay)
    (next : EncapsulatedRoutingInformation) :
    (RoutingInformation.concatenateComponents nodeAddress delay next).length =
      encryptedRoutingInfoSize := by
  rw [concatenateComponents_eq, List.length_append, metaBlock_length, List.length_take,
    List.Vector.toList_length]
  decide

/-- A forward hop in the sender's hands: the next hop's address, its own keys and its delay. -/
abbrev Hop := (Arr nodeAddressLength × RoutingKeys) × Delay

variable (C) in
/-- The routing information of a hop around the one of the next hop. -/
def coverInfo (hop : Hop) (next : EncapsulatedRoutingInformation) :
    EncapsulatedRoutingInformation :=
  EncryptedRoutingInformation.encapsulateWithMac C
    (Arr.of (streamCover (· ^^^ ·) encryptedRoutingInfoSize fillerStepSizeIncrease
        (hopKeystream C hop.1.2.streamCipherKey)
        (metaBlock hop.1.1 hop.2 next.integrityMac) next.encRoutingInformation.toList)
      (streamCover_length (hopKeystream_length_add _) (metaBlock_length _ _ _)
        (List.Vector.toList_length _) (by decide)))
    hop.1.2.headerIntegrityHmacKey

/-- No assertion fails when the routing information of a hop is built.
SRC: sphinx/src/header/routing/mod.rs:139-148 -/
theorem forwardStep_eq (next : EncapsulatedRoutingInformation) (hop : Hop) :
    EncapsulatedRoutingInformation.forwardStep C next hop = .ok (coverInfo C hop next) := by
  have hparts := concatenateComponents_length hop.1.1 hop.2 next
  have hks := hopKeystream_length (C := C) hop.1.2.streamCipherKey
  have htake : encryptedRoutingInfoSize ≤ (hopKeystream C hop.1.2.streamCipherKey).length := by
    rw [hks]
    decide
  have hxor : (RoutingInformation.concatenateComponents hop.1.1 hop.2 next).length =
      ((hopKeystream C hop.1.2.streamCipherKey).take encryptedRoutingInfoSize).length := by
    rw [hparts, List.length_take, hks]
    decide
  have hlen : (List.zipWith (· ^^^ ·)
      (RoutingInformation.concatenateComponents hop.1.1 hop.2 next)
      ((hopKeystream C hop.1.2.streamCipherKey).take encryptedRoutingInfoSize)).length =
        encryptedRoutingInfoSize := by
    rw [List.length_zipWith, ← hxor, hparts, Nat.min_self]
  rw [EncapsulatedRoutingInformation.forwardStep, RoutingInformation.encrypt,
    assert_of hparts.symm, ok_bind, sliceTo_of_le htake, ok_bind, xor_of hxor, ok_bind,
    copyFromSlice_of hlen]
  rfl

/-- Nor when that of all forward hops is.  SRC: sphinx/src/header/routing/mod.rs:117-150 -/
theorem foldlM_forwardStep (hops : List Hop) (core : EncapsulatedRoutingInformation) :
    hops.reverse.foldlM (EncapsulatedRoutingInformation.forwardStep C) core =
      .ok (hops.foldr (coverInfo C) core) := by
  induction hops with
  | nil => rfl
  | cons hop hops ih =>
      rw [List.reverse_cons, List.foldlM_append, ih, ok_bind, List.foldlM_cons, forwardStep_eq]
      rfl

/-! ## Peeling -/

/-- INTERNAL: **a hop peels a layer** and parses what comes out.
SRC: sphinx/src/header/routing/nodes.rs:144-184 -/
theorem unwrap_eq (value : EncryptedRoutingInformation) (key : Arr streamCipherKeySize) :
    EncryptedRoutingInformation.unwrap C value key = EncryptedRoutingInformation.parse
      (streamPeel (· ^^^ ·) 0 fillerStepSizeIncrease (hopKeystream C key) value.toList) := by
  have hpadded : encryptedRoutingInfoSize + nodeMetaInfoSize + headerIntegrityMacSize =
      (value.toList ++ List.replicate (nodeMetaInfoSize + headerIntegrityMacSize) 0).length := by
    rw [List.length_append, List.length_replicate, List.Vector.toList_length]
    decide
  have hlen : (value.toList ++
      List.replicate (nodeMetaInfoSize + headerIntegrityMacSize) 0).length =
      (hopKeystream C key).length := by
    rw [← hpadded, hopKeystream_length]
    decide
  rw [EncryptedRoutingInformation.unwrap, EncryptedRoutingInformation.addZeroPadding,
    assert_of hpadded, ok_bind]
  change (EncryptedRoutingInformation.decrypt C _ key >>= _) = _
  rw [EncryptedRoutingInformation.decrypt, assert_of hlen, ok_bind, xor_of hlen, ok_bind]
  rfl

/-- A delay is read as it was written.  SRC: sphinx/src/header/delays.rs:45-53 -/
theorem delay_fromBytes_toBytes (delay : Delay) : Delay.fromBytes delay.toBytes = delay := by
  have hread : ofLE (delay.toBytes.toList.reverse) = delay.toNat := by
    change ofLE ((toLE delayLength delay.toNat).reverse.reverse) = _
    rw [List.reverse_reverse, ofLE_toLE]
    exact Nat.mod_eq_of_lt delay.toNat_lt
  rw [Delay.fromBytes, hread, UInt64.ofNat_toNat]

/-- A hop reads the address, the delay and the next hop's routing information.
SRC: sphinx/src/header/routing/nodes.rs:197-249 -/
theorem parse_forward (nodeAddress : Arr nodeAddressLength) (delay : Delay)
    (next : EncapsulatedRoutingInformation) :
    EncryptedRoutingInformation.parse (metaBlock nodeAddress delay next.integrityMac ++
      next.encRoutingInformation.toList) = .ok (.forwardHop nodeAddress delay next) := by
  obtain ⟨enc, mac⟩ := next
  have hlen : (metaBlock nodeAddress delay mac ++ enc.toList).length =
      streamCipherOutputLength := by
    rw [List.length_append, metaBlock_length, List.Vector.toList_length]
    rfl
  have hparts : (Arr.of _ hlen).toList = (forwardHop :: version) ++
      (nodeAddress.toList ++ (delay.toBytes.toList ++ (mac.toList ++ enc.toList))) := by
    simp only [Arr.toList_of, metaBlock, List.cons_append, List.append_assoc]
  rw [EncryptedRoutingInformation.parse, copyFromSlice_of hlen, ok_bind]
  refine (if_pos rfl).trans (congrArg Except.ok ?_)
  generalize Arr.of _ hlen = raw at hparts
  have haddress := Arr.slice_of_append nodeAddress hparts
    (i := EncryptedRoutingInformation.addressOffset) rfl (by decide)
  rw [← List.append_assoc] at hparts
  have hdelay := Arr.slice_of_append delay.toBytes hparts
    (i := EncryptedRoutingInformation.addressOffset + nodeAddressLength) (by simp [version]; rfl)
    (by decide)
  rw [← List.append_assoc] at hparts
  have hmac := Arr.slice_of_append mac hparts
    (i := EncryptedRoutingInformation.addressOffset + nodeAddressLength + delayLength)
    (by simp [version]; rfl) (by decide)
  rw [← List.append_assoc, ← List.append_nil enc.toList] at hparts
  have henc := Arr.slice_of_append enc hparts
    (i := EncryptedRoutingInformation.addressOffset + nodeAddressLength + delayLength +
      headerIntegrityMacSize) (by simp [version]; rfl) (by decide)
  unfold EncryptedRoutingInformation.parseAsForwardHop
  dsimp only
  rw [haddress, hdelay, hmac, henc, delay_fromBytes_toBytes]

/-! ## The final hop -/

/-- What the routing information of the final hop begins with. -/
def finalBlock (dest : Destination) : Bytes :=
  finalHop :: (version ++ dest.address.toList ++ dest.identifier.toList)

/-- What the last hop learns is of one length. -/
theorem finalBlock_length (dest : Destination) :
    (finalBlock dest).length = finalNodeMetaInfoLength := by
  simp [finalBlock, version, sizes]

/-- The last hop reads the destination and the identifier, whatever is behind them.
SRC: sphinx/src/header/routing/nodes.rs:197-212, 252-269 -/
theorem parse_final (dest : Destination) {rest : Bytes}
    (hlen : (finalBlock dest ++ rest).length = streamCipherOutputLength) :
    EncryptedRoutingInformation.parse (finalBlock dest ++ rest) =
      .ok (.finalHop dest.address dest.identifier) := by
  have hparts : (Arr.of _ hlen).toList = (finalHop :: version) ++
      (dest.address.toList ++ (dest.identifier.toList ++ rest)) := by
    simp only [Arr.toList_of, finalBlock, List.cons_append, List.append_assoc]
  rw [EncryptedRoutingInformation.parse, copyFromSlice_of hlen, ok_bind]
  have hforward : ¬ (Arr.of _ hlen).head = forwardHop := by
    change ¬ finalHop = forwardHop
    decide
  refine (if_neg hforward).trans ((if_pos rfl).trans (congrArg Except.ok ?_))
  generalize Arr.of _ hlen = raw at hparts
  have haddress := Arr.slice_of_append dest.address hparts
    (i := EncryptedRoutingInformation.addressOffset) rfl (by decide)
  rw [← List.append_assoc] at hparts
  have hidentifier := Arr.slice_of_append dest.identifier hparts
    (i := EncryptedRoutingInformation.addressOffset + destinationAddressLength)
    (by simp [version]; rfl) (by decide)
  unfold EncryptedRoutingInformation.parseAsFinalHop
  rw [haddress, hidentifier]

/-- The padding behind the final hop's block. -/
def paddingLength (n : ℕ) : ℕ :=
  encryptedRoutingInfoSize - fillerStepSizeIncrease * (n - 1) - finalNodeMetaInfoLength

/-- Within the length of a route the padding fills what is left of the routing information.
SRC: sphinx/src/header/routing/destination.rs:46-85 -/
theorem addPadding_eq {R : Type} [Rng R] (dest : Destination) {n : ℕ} (hpos : 1 ≤ n)
    (hn : n ≤ maxPathLength) (rng : R) :
    FinalRoutingInformation.addPadding dest n rng =
      .ok (finalBlock dest ++ (genBytes (paddingLength n) rng).1) := by
  have hlimit : destinationAddressLength ≤ (3 * (maxPathLength - n) + 2) * securityParameter := by
    simp only [sizes]
    omega
  have hpadded : fillerStepSizeIncrease * (n - 1) ≤ encryptedRoutingInfoSize := by
    simp only [sizes] at hn ⊢
    omega
  have hblock : finalNodeMetaInfoLength ≤
      encryptedRoutingInfoSize - fillerStepSizeIncrease * (n - 1) := by
    simp only [sizes] at hn ⊢
    omega
  rw [FinalRoutingInformation.addPadding, FinalRoutingInformation.maxDestinationLength,
    sub_of_le hn, ok_bind]
  change (assert _ >>= fun _ => _) = _
  rw [assert_of hlimit, ok_bind, sub_of_le hpos, ok_bind, sub_of_le hpadded, ok_bind,
    sub_of_le hblock, ok_bind]
  change Except.ok _ = Except.ok _
  simp only [finalBlock, paddingLength, List.cons_append, List.append_assoc]

/-- INTERNAL: **the final hop's routing information** ends with the filler, carries its MAC, and is
read as the destination.  SRC: sphinx/src/header/routing/mod.rs:103-115 -/
theorem forFinalHop_spec {R : Type} [Rng R] (dest : Destination) (keys : RoutingKeys) {fill : Bytes}
    {n : ℕ} (hpos : 1 ≤ n) (hn : n ≤ maxPathLength)
    (hfill : fill.length = (n - 1) * fillerStepSizeIncrease) (rng : R) :
    ∃ core, EncapsulatedRoutingInformation.forFinalHop C dest keys fill n rng = .ok core ∧
      fill <:+ core.encRoutingInformation.toList ∧
      core.integrityMac = HeaderIntegrityMac.compute C keys.headerIntegrityHmacKey
        core.encRoutingInformation.toList ∧
      EncryptedRoutingInformation.unwrap C core.encRoutingInformation keys.streamCipherKey =
        .ok (.finalHop dest.address dest.identifier) := by
  set plain := finalBlock dest ++ (genBytes (paddingLength n) rng).1 with hplain
  set ks := hopKeystream C keys.streamCipherKey with hks
  have hks_len : ks.length = streamCipherOutputLength := hopKeystream_length _
  have hplain_len : encryptedRoutingInfoSize - fillerStepSizeIncrease * (n - 1) =
      plain.length := by
    simp only [hplain, List.length_append, finalBlock_length, genBytes_length, paddingLength,
      sizes] at hn ⊢
    omega
  have hle : plain.length ≤ ks.length := by
    rw [← hplain_len, hks_len]
    simp only [sizes]
    omega
  have hpadded : fillerStepSizeIncrease * (n - 1) ≤ encryptedRoutingInfoSize := by
    simp only [sizes] at hn ⊢
    omega
  have hxor : plain.length = (ks.take plain.length).length := by
    rw [List.length_take, Nat.min_eq_left hle]
  set masked := List.zipWith (· ^^^ ·) plain (ks.take plain.length) with hmasked
  have hmasked_len : masked.length = plain.length := by
    rw [hmasked, List.length_zipWith, ← hxor, Nat.min_self]
  have hcore : (masked ++ fill).length = encryptedRoutingInfoSize := by
    rw [List.length_append, hmasked_len, ← hplain_len, hfill, Nat.mul_comm (n - 1)]
    omega
  refine ⟨EncryptedRoutingInformation.encapsulateWithMac C (Arr.of _ hcore)
    keys.headerIntegrityHmacKey, ?_, List.suffix_append _ _, rfl, ?_⟩
  · rw [EncapsulatedRoutingInformation.forFinalHop, addPadding_eq dest hpos hn, ok_bind,
      FinalRoutingInformation.encrypt, FinalRoutingInformation.maxPaddedDestinationIdentifierLength,
      sub_of_le hpos, ok_bind, sub_of_le hpadded, ok_bind, assert_of hplain_len, ok_bind,
      sliceTo_of_le hle, ok_bind, xor_of hxor, ok_bind, FinalRoutingInformation.combineWithFiller,
      sub_of_le hpos, ok_bind, assert_of (by rw [hfill, Nat.mul_comm]), ok_bind,
      copyFromSlice_of hcore]
    rfl
  · have hlen : (streamPeel (· ^^^ ·) 0 fillerStepSizeIncrease ks (masked ++ fill)).length =
        streamCipherOutputLength := by
      rw [streamPeel_length, hks_len]
      rw [hcore, hks_len]
      rfl
    rw [unwrap_eq]
    change EncryptedRoutingInformation.parse
      (streamPeel (· ^^^ ·) 0 fillerStepSizeIncrease ks (masked ++ fill)) = _
    rw [hmasked, streamPeel_masked byte_xor_cancel hle, hplain, List.append_assoc] at hlen ⊢
    exact parse_final dest hlen

/-! ## The tower -/

variable (C) in
/-- The keystream that belongs to the keys of a hop. -/
abbrev keystream (keys : RoutingKeys) : Bytes := hopKeystream C keys.streamCipherKey

variable (C) in
/-- The routing information of the first of some forward hops, around the one of the final hop. -/
def infoFrom (hops : List Hop) (core : EncapsulatedRoutingInformation) :
    EncapsulatedRoutingInformation :=
  hops.foldr (coverInfo C) core

variable (C) in
/-- The filler below hops with the given keys. -/
def fillerBelow (keys : List RoutingKeys) : Bytes :=
  Library.filler (· ^^^ ·) 0 encryptedRoutingInfoSize fillerStepSizeIncrease
    (keys.map (keystream C))

/-- The routing information as the window of a tower, with its MAC for a tag. -/
def asWindow (info : EncapsulatedRoutingInformation) : Bytes × HeaderIntegrityMac :=
  (info.encRoutingInformation.toList, info.integrityMac)

variable (C) in
/-- The layer that a forward hop contributes. -/
def hopLayer (hop : Hop) : Hop × Bytes := (hop, keystream C hop.1.2)

variable (C) in
/-- The MAC that a hop's routing information is tagged with. -/
def hopTag (hop : Hop) (window : Bytes) : HeaderIntegrityMac :=
  HeaderIntegrityMac.compute C hop.1.2.headerIntegrityHmacKey window

/-- The block of a hop, given the MAC of the next one. -/
def hopBlock (hop : Hop) (mac : HeaderIntegrityMac) : Bytes := metaBlock hop.1.1 hop.2 mac

/-- The share of a hop has that length. -/
theorem hopBlock_length (hop : Hop) (mac : HeaderIntegrityMac) :
    (hopBlock hop mac).length = fillerStepSizeIncrease :=
  metaBlock_length _ _ _

/-- INTERNAL: the sender's fold is a tower of stream-cipher layers.
SRC: sphinx/src/header/routing/mod.rs:117-150 -/
theorem asWindow_infoFrom (hops : List Hop) (core : EncapsulatedRoutingInformation) :
    asWindow (infoFrom C hops core) = tower (· ^^^ ·) encryptedRoutingInfoSize
      fillerStepSizeIncrease hopBlock (hopTag C) (hops.map (hopLayer C)) (asWindow core) := by
  induction hops with
  | nil => rfl
  | cons hop hops ih =>
      rw [List.map_cons, tower_cons, ← ih]
      rfl

/-- INTERNAL: **a forward hop finds its own block** and the next hop's routing information.
SRC: sphinx/src/header/routing/nodes.rs:159-165 -/
theorem unwrap_forward {above : List RoutingKeys} (hop : Hop) {hops : List Hop}
    {core : EncapsulatedRoutingInformation}
    (hlen : above.length + (hops.length + 1) ≤ maxPathLength)
    (h : fillerBelow C (above ++ hop.1.2 :: hops.map fun hop => hop.1.2) <:+
      core.encRoutingInformation.toList) :
    EncryptedRoutingInformation.unwrap C (infoFrom C (hop :: hops) core).encRoutingInformation
      hop.1.2.streamCipherKey =
        .ok (.forwardHop hop.1.1 hop.2 (infoFrom C hops core)) := by
  have habove : ∀ s ∈ above.map (keystream C),
      s.length = encryptedRoutingInfoSize + fillerStepSizeIncrease := by
    intro s hs
    obtain ⟨keys, -, rfl⟩ := List.mem_map.mp hs
    exact hopKeystream_length_add _
  have hlayers : ∀ layer ∈ hops.map (hopLayer C),
      layer.2.length = encryptedRoutingInfoSize + fillerStepSizeIncrease := by
    intro layer hlayer
    obtain ⟨hop', -, rfl⟩ := List.mem_map.mp hlayer
    exact hopKeystream_length_add _
  have hfit : ((above.map (keystream C)).length + ((hops.map (hopLayer C)).length + 1)) *
      fillerStepSizeIncrease ≤ encryptedRoutingInfoSize := by
    simp only [List.length_map, sizes] at hlen ⊢
    omega
  have hsuffix : Library.filler (· ^^^ ·) 0 encryptedRoutingInfoSize fillerStepSizeIncrease
      (above.map (keystream C) ++ (hopLayer C hop).2 :: (hops.map (hopLayer C)).map Prod.snd) <:+
        (asWindow core).1 := by
    rw [fillerBelow, List.map_append, List.map_cons, List.map_map] at h
    rw [List.map_map]
    exact h
  have hpeel := streamPeel_tower (hopTag C) byte_xor_cancel hopBlock_length habove
    (hopKeystream_length_add _) hlayers (List.Vector.toList_length _) hfit (by decide) hsuffix
  rw [← List.map_cons, ← asWindow_infoFrom, ← asWindow_infoFrom] at hpeel
  rw [unwrap_eq]
  refine (congrArg EncryptedRoutingInformation.parse hpeel).trans ?_
  exact parse_forward hop.1.1 hop.2 (infoFrom C hops core)

end Eror.Analysis.Sphinx
