import Eror.Interface.SphinxNetwork

/-!
# The Sphinx formats

Headers, packets and reply blocks are written without any lengths: a header has one size, and what
is behind it is counted by what is left.  Each format is read back, and nothing else is read:
`fromBytes` accepts the bytes that `toBytes` makes, of one value each (`header_fromBytes_eq_ok`,
`packet_fromBytes_eq_ok`, `surb_fromBytes_eq_ok`), and refuses all others with an error.
-/

set_option autoImplicit false

namespace Eror.Analysis.Sphinx

open Library Model.Sphinx

/-! ## Arrays from slices -/

section Arrays

variable {n : ℕ}

/-- An array is read off the front, and what follows is the rest. -/
theorem copyFromSlice_take {bytes : Bytes} {v : Arr n} (h : n ≤ bytes.length) :
    copyFromSlice n (bytes.take n) = .ok v ↔ bytes = v.toList ++ bytes.drop n := by
  have hlen : (bytes.take n).length = n := by
    rw [List.length_take, Nat.min_eq_left h]
  rw [copyFromSlice_of hlen, Except.ok.injEq]
  constructor
  · rintro rfl
    rw [Arr.toList_of, List.take_append_drop]
  · intro hv
    apply List.Vector.toList_injective
    rw [Arr.toList_of, hv, List.take_left' v.toList_length]

/-- The array that is copied has the bytes of the slice. -/
theorem copyFromSlice_eq_ok {bytes : Bytes} {v : Arr n} :
    copyFromSlice n bytes = .ok v ↔ bytes = v.toList := by
  constructor
  · intro h
    rw [copyFromSlice] at h
    split at h
    · cases h
      rfl
    · cases h
  · rintro rfl
    exact copyFromSlice_of v.toList_length

end Arrays

/-! ## Headers -/

/-- The bytes of a routing information are of one length. -/
@[simp] theorem info_toBytes_length (info : EncapsulatedRoutingInformation) :
    info.toBytes.length = headerIntegrityMacSize + encryptedRoutingInfoSize := by
  rw [EncapsulatedRoutingInformation.toBytes, List.length_append, List.Vector.toList_length,
    List.Vector.toList_length]

/-- A routing information is read from its own bytes only.
SRC: sphinx/src/header/routing/mod.rs:152-192 -/
theorem info_fromBytes_eq_ok {bytes : Bytes} {info : EncapsulatedRoutingInformation} :
    EncapsulatedRoutingInformation.fromBytes bytes = .ok info ↔ bytes = info.toBytes := by
  rw [EncapsulatedRoutingInformation.fromBytes]
  by_cases hlen : bytes.length = headerIntegrityMacSize + encryptedRoutingInfoSize
  · have hmac : headerIntegrityMacSize ≤ bytes.length := by omega
    rw [if_neg (not_not.mpr hlen), sliceTo_of_le hmac, ok_bind, sliceFrom_of_le hmac]
    simp only [bind_eq_ok, copyFromSlice_take hmac, copyFromSlice_eq_ok]
    constructor
    · rintro ⟨mac, hbytes, rest, hrest, enc, henc, hinfo⟩
      cases hrest
      cases hinfo
      rw [hbytes, henc]
      rfl
    · intro hbytes
      have hdrop : bytes.drop headerIntegrityMacSize = info.encRoutingInformation.toList := by
        rw [hbytes]
        exact List.drop_left' info.integrityMac.toList_length
      refine ⟨info.integrityMac, ?_, _, rfl, info.encRoutingInformation, hdrop, rfl⟩
      rw [hdrop]
      exact hbytes
  · rw [if_pos hlen]
    constructor
    · intro h
      cases h
    · rintro rfl
      exact absurd (info_toBytes_length info) hlen

/-- The bytes of a header are of one length. -/
@[simp] theorem header_toBytes_length (header : SphinxHeader) :
    header.toBytes.length = headerSize := by
  rw [SphinxHeader.toBytes, List.length_append, List.Vector.toList_length, info_toBytes_length]
  rfl

/-- INTERNAL: **headers** are read as they are written, and every header is 348 bytes.
SRC: sphinx/src/header/mod.rs:198-234 -/
theorem header_fromBytes_eq_ok {bytes : Bytes} {header : SphinxHeader} :
    SphinxHeader.fromBytes bytes = .ok header ↔ bytes = header.toBytes := by
  rw [SphinxHeader.fromBytes]
  by_cases hlen : bytes.length = headerSize
  · have hsecret : 32 ≤ bytes.length := by
      rw [hlen]
      decide
    rw [if_neg (not_not.mpr hlen), sliceTo_of_le hsecret, ok_bind, sliceFrom_of_le hsecret]
    simp only [bind_eq_ok, copyFromSlice_take hsecret]
    constructor
    · rintro ⟨secret, hbytes, rest, hrest, info, hinfo, hheader⟩
      cases hrest
      cases hheader
      rw [hbytes, info_fromBytes_eq_ok.mp hinfo]
      rfl
    · intro hbytes
      have hdrop : bytes.drop 32 = header.routingInfo.toBytes := by
        rw [hbytes]
        exact List.drop_left' header.sharedSecret.toList_length
      refine ⟨header.sharedSecret, ?_, _, rfl, header.routingInfo,
        info_fromBytes_eq_ok.mpr hdrop, rfl⟩
      rw [hdrop]
      exact hbytes
  · rw [if_pos hlen]
    constructor
    · intro h
      cases h
    · rintro rfl
      exact absurd (header_toBytes_length header) hlen

/-- Whatever has the length of a header is one. -/
theorem exists_header {bytes : Bytes} (h : bytes.length = headerSize) :
    ∃ header : SphinxHeader, bytes = header.toBytes := by
  have hsecret : (bytes.take 32).length = 32 := by
    rw [List.length_take, h]
    decide
  have hmac : ((bytes.drop 32).take headerIntegrityMacSize).length = headerIntegrityMacSize := by
    rw [List.length_take, List.length_drop, h]
    decide
  have hinfo : ((bytes.drop 32).drop headerIntegrityMacSize).length =
      encryptedRoutingInfoSize := by
    rw [List.length_drop, List.length_drop, h]
    decide
  refine ⟨⟨Arr.of _ hsecret, ⟨Arr.of _ hinfo, Arr.of _ hmac⟩⟩, ?_⟩
  simp only [SphinxHeader.toBytes, EncapsulatedRoutingInformation.toBytes, Arr.toList_of,
    List.take_append_drop]

/-! ## Packets -/

/-- A packet is as long as `len` says.  SRC: sphinx/src/packet/mod.rs:52-55, 122-129 -/
theorem packet_toBytes_length (packet : SphinxPacket) : packet.toBytes.length = packet.len := by
  rw [SphinxPacket.toBytes, List.length_append, header_toBytes_length]
  rfl

/-- A packet begins with its point. -/
theorem packet_toBytes_take (packet : SphinxPacket) :
    packet.toBytes.take 32 = packet.header.sharedSecret.toList := by
  rw [SphinxPacket.toBytes, SphinxHeader.toBytes, List.append_assoc]
  exact List.take_left' packet.header.sharedSecret.toList_length

/-- A payload is read from bytes that are no shorter than the overhead.
SRC: sphinx/src/payload/mod.rs:202-213 -/
theorem payload_fromBytes_eq_ok {bytes : Bytes} {payload : Payload} :
    Payload.fromBytes bytes = .ok payload ↔
      bytes = payload.bytes ∧ payloadOverheadSize ≤ payload.bytes.length := by
  rw [Payload.fromBytes]
  by_cases hlen : bytes.length < payloadOverheadSize
  · rw [if_pos hlen]
    constructor
    · intro h
      cases h
    · rintro ⟨rfl, hle⟩
      exact absurd hlen (Nat.not_lt.mpr hle)
  · rw [if_neg hlen, Except.ok.injEq]
    constructor
    · rintro rfl
      exact ⟨rfl, Nat.le_of_not_lt hlen⟩
    · rintro ⟨rfl, -⟩
      rfl

/-- The error about a packet of too few bytes.  SRC: sphinx/src/packet/mod.rs:133-140 -/
def tooShort (length : ℕ) : Error :=
  let least := headerSize + payloadOverheadSize
  ⟨.invalidPacket,
    s!"tried to recover sphinx packet using {length} bytes, expected at least {least}"⟩

/-- Fewer bytes than a packet can have are refused.  SRC: sphinx/src/packet/mod.rs:131-151 -/
theorem packet_fromBytes_short {bytes : Bytes}
    (h : bytes.length < headerSize + payloadOverheadSize) :
    SphinxPacket.fromBytes bytes = .error (.err (tooShort bytes.length)) :=
  if_pos h

/-- INTERNAL: **packets** are read as they are written.  SRC: sphinx/src/packet/mod.rs:122-151 -/
theorem packet_fromBytes_eq_ok {bytes : Bytes} {packet : SphinxPacket} :
    SphinxPacket.fromBytes bytes = .ok packet ↔
      bytes = packet.toBytes ∧ payloadOverheadSize ≤ packet.payload.bytes.length := by
  by_cases hlen : bytes.length < headerSize + payloadOverheadSize
  · rw [packet_fromBytes_short hlen]
    constructor
    · intro h
      cases h
    · rintro ⟨rfl, hle⟩
      rw [packet_toBytes_length, SphinxPacket.len] at hlen
      omega
  · have hheader : headerSize ≤ bytes.length := by omega
    have hslice : (bytes.take headerSize).length = headerSize := by
      rw [List.length_take, Nat.min_eq_left hheader]
    rw [SphinxPacket.fromBytes]
    dsimp only
    rw [if_neg hlen, sliceTo_of_le hheader, ok_bind, sliceFrom_of_le hheader]
    simp only [bind_eq_ok, header_fromBytes_eq_ok, payload_fromBytes_eq_ok]
    constructor
    · rintro ⟨header, hfront, rest, hrest, payload, ⟨hback, hle⟩, hpacket⟩
      cases hrest
      cases hpacket
      refine ⟨?_, hle⟩
      rw [SphinxPacket.toBytes, ← hfront, ← hback, List.take_append_drop]
    · rintro ⟨hbytes, hle⟩
      refine ⟨packet.header, ?_, _, rfl, packet.payload, ⟨?_, hle⟩, rfl⟩
      · rw [hbytes]
        exact List.take_left' (header_toBytes_length _)
      · rw [hbytes]
        exact List.drop_left' (header_toBytes_length _)

/-- Bytes that are long enough are a packet. -/
theorem exists_packet {bytes : Bytes} (h : headerSize + payloadOverheadSize ≤ bytes.length) :
    ∃ packet, SphinxPacket.fromBytes bytes = .ok packet := by
  have hfront : (bytes.take headerSize).length = headerSize := by
    rw [List.length_take]
    omega
  obtain ⟨header, hheader⟩ := exists_header hfront
  refine ⟨⟨header, ⟨bytes.drop headerSize⟩⟩, packet_fromBytes_eq_ok.mpr ⟨?_, ?_⟩⟩
  · rw [SphinxPacket.toBytes, ← hheader, List.take_append_drop]
  · rw [List.length_drop]
    omega

/-- **The format of packets.**  The bytes that are read as a packet are those that it is written as,
so each packet has one spelling, and every other string of bytes is refused for its length alone.
-/
theorem packet_format (bytes : Bytes) :
    (∀ packet : SphinxPacket, SphinxPacket.fromBytes bytes = .ok packet ↔
      bytes = packet.toBytes ∧ payloadOverheadSize ≤ packet.payload.bytes.length) ∧
    (∀ f, SphinxPacket.fromBytes bytes = .error f ↔
      bytes.length < headerSize + payloadOverheadSize ∧ f = .err (tooShort bytes.length)) := by
  refine ⟨fun packet => packet_fromBytes_eq_ok, ?_⟩
  intro f
  constructor
  · intro h
    by_cases hshort : bytes.length < headerSize + payloadOverheadSize
    · rw [packet_fromBytes_short hshort] at h
      cases h
      exact ⟨hshort, rfl⟩
    · obtain ⟨packet, hpacket⟩ := exists_packet (Nat.le_of_not_lt hshort)
      rw [hpacket] at h
      cases h
  · rintro ⟨hshort, rfl⟩
    exact packet_fromBytes_short hshort

/-! ## Single use reply blocks -/

/-- The first round reads the key in front, and the others read what is behind it. -/
theorem readKeys_succ {bytes : Bytes} (count : ℕ) (h : payloadKeySize ≤ bytes.length) :
    (List.range (count + 1)).mapM (SURB.readKey bytes) =
      (copyFromSlice payloadKeySize (bytes.take payloadKeySize) >>= fun key =>
        (List.range count).mapM (SURB.readKey (bytes.drop payloadKeySize)) >>= fun keys =>
          .ok (key :: keys)) := by
  have hfirst : SURB.readKey bytes 0 =
      copyFromSlice payloadKeySize (bytes.take payloadKeySize) := by
    rw [SURB.readKey, Nat.zero_mul, sliceFrom_of_le (Nat.zero_le _), ok_bind, List.drop_zero,
      sliceTo_of_le h, ok_bind]
  have hshift : ∀ i, SURB.readKey bytes (i + 1) =
      SURB.readKey (bytes.drop payloadKeySize) i := by
    intro i
    rw [SURB.readKey, SURB.readKey, sliceFrom, sliceFrom, List.drop_drop, List.length_drop,
      Nat.succ_mul, Nat.add_comm payloadKeySize]
    congr 1
    apply if_congr _ rfl rfl
    omega
  rw [List.range_succ_eq_map, List.mapM_cons, hfirst, List.mapM_map]
  simp only [Function.comp_def, Nat.succ_eq_add_one, hshift]
  rfl

/-- INTERNAL: **the keys of a reply block** are read one behind the other.
SRC: sphinx/src/surb/mod.rs:145-154 -/
theorem readKeys_eq_ok {bytes : Bytes} {count : ℕ} {keys : List (Arr payloadKeySize)}
    (h : bytes.length = count * payloadKeySize) :
    (List.range count).mapM (SURB.readKey bytes) = .ok keys ↔
      bytes = keys.flatMap List.Vector.toList := by
  induction count generalizing bytes keys with
  | zero =>
      rw [Nat.zero_mul, List.length_eq_zero_iff] at h
      subst h
      constructor
      · intro hkeys
        cases hkeys
        rfl
      · intro hkeys
        cases keys with
        | nil => rfl
        | cons key keys =>
            have hlen := congrArg List.length hkeys
            rw [List.flatMap_cons, List.length_append, List.Vector.toList_length] at hlen
            simp only [List.length_nil, sizes] at hlen
            omega
  | succ count ih =>
      rw [Nat.succ_mul] at h
      have hle : payloadKeySize ≤ bytes.length := by omega
      have hrest : (bytes.drop payloadKeySize).length = count * payloadKeySize := by
        rw [List.length_drop]
        omega
      rw [readKeys_succ count hle]
      simp only [bind_eq_ok, copyFromSlice_take hle, ih hrest]
      constructor
      · rintro ⟨key, hkey, rest, hkeys, hall⟩
        cases hall
        rw [hkey, hkeys]
        rfl
      · intro hbytes
        cases keys with
        | nil =>
            rw [hbytes, List.flatMap_nil, List.length_nil] at hle
            simp only [sizes] at hle
            omega
        | cons key keys =>
            rw [List.flatMap_cons] at hbytes
            have hdrop : bytes.drop payloadKeySize = keys.flatMap List.Vector.toList := by
              rw [hbytes]
              exact List.drop_left' key.toList_length
            refine ⟨key, ?_, keys, hdrop, rfl⟩
            rw [hdrop]
            exact hbytes

/-- The payload keys are of one length. -/
theorem flatMap_toList_length (keys : List (Arr payloadKeySize)) :
    (keys.flatMap List.Vector.toList).length = keys.length * payloadKeySize := by
  induction keys with
  | nil => rw [List.flatMap_nil, List.length_nil, List.length_nil, Nat.zero_mul]
  | cons key keys ih =>
      rw [List.flatMap_cons, List.length_append, ih, List.Vector.toList_length, List.length_cons,
        Nat.succ_mul, Nat.add_comm]

/-- The bytes of a reply block.  SRC: sphinx/src/surb/mod.rs:113-120 -/
theorem surb_toBytes_length (surb : SURB) : surb.toBytes.length =
    headerSize + nodeAddressLength + surb.payloadKeys.length * payloadKeySize := by
  rw [SURB.toBytes, List.length_append, List.length_append, header_toBytes_length,
    List.Vector.toList_length, flatMap_toList_length]

/-- Fewer bytes than a block with one key are refused.  SRC: sphinx/src/surb/mod.rs:122-131 -/
theorem surb_fromBytes_short {bytes : Bytes}
    (h : bytes.length < headerSize + nodeAddressLength + payloadKeySize) :
    SURB.fromBytes bytes =
      fail .invalidSURB "not enough bytes provided to try to recover a SURB" :=
  if_pos h

/-- Bytes that end in a part of a key are refused.  SRC: sphinx/src/surb/mod.rs:133-140 -/
theorem surb_fromBytes_uneven {bytes : Bytes}
    (h : headerSize + nodeAddressLength + payloadKeySize ≤ bytes.length)
    (hmod : (bytes.length - (headerSize + nodeAddressLength)) % payloadKeySize ≠ 0) :
    SURB.fromBytes bytes = fail .invalidSURB "bytes of invalid length provided" := by
  rw [SURB.fromBytes, if_neg (Nat.not_lt.mpr h), sliceTo_of_le (by omega), ok_bind,
    sliceFrom_of_le (by omega), ok_bind, sliceTo_of_le (by rw [List.length_drop]; omega), ok_bind,
    sliceFrom_of_le (by omega), ok_bind, List.length_drop]
  exact if_pos hmod

/-- The three parts of a reply block. -/
theorem eq_surb_toBytes_iff {bytes : Bytes} {surb : SURB} : bytes = surb.toBytes ↔
    bytes.take headerSize = surb.header.toBytes ∧
      (bytes.drop headerSize).take nodeAddressLength = surb.firstHopAddress.toList ∧
      bytes.drop (headerSize + nodeAddressLength) =
        surb.payloadKeys.flatMap List.Vector.toList := by
  rw [SURB.toBytes, List.append_assoc, ← List.drop_drop]
  constructor
  · intro h
    have hback : bytes.drop headerSize =
        surb.firstHopAddress.toList ++ surb.payloadKeys.flatMap List.Vector.toList := by
      rw [h]
      exact List.drop_left' (header_toBytes_length _)
    refine ⟨?_, ?_, ?_⟩
    · rw [h]
      exact List.take_left' (header_toBytes_length _)
    · rw [hback]
      exact List.take_left' surb.firstHopAddress.toList_length
    · rw [hback]
      exact List.drop_left' surb.firstHopAddress.toList_length
  · rintro ⟨hheader, hfirst, hkeys⟩
    rw [← hheader, ← hfirst, ← hkeys, List.take_append_drop, List.take_append_drop]

/-- INTERNAL: **reply blocks** are read as they are written, if they have any keys.
SRC: sphinx/src/surb/mod.rs:113-161 -/
theorem surb_fromBytes_eq_ok {bytes : Bytes} {surb : SURB} :
    SURB.fromBytes bytes = .ok surb ↔ bytes = surb.toBytes ∧ surb.payloadKeys ≠ [] := by
  by_cases hlong : headerSize + nodeAddressLength + payloadKeySize ≤ bytes.length
  · by_cases hmod : (bytes.length - (headerSize + nodeAddressLength)) % payloadKeySize = 0
    · have hcount : (bytes.drop (headerSize + nodeAddressLength)).length =
          (bytes.drop (headerSize + nodeAddressLength)).length / payloadKeySize *
            payloadKeySize := by
        rw [List.length_drop]
        exact (Nat.div_mul_cancel (Nat.dvd_of_mod_eq_zero hmod)).symm
      have hhop : ((bytes.drop headerSize).take nodeAddressLength).length = nodeAddressLength := by
        rw [List.length_take, List.length_drop]
        omega
      rw [SURB.fromBytes, if_neg (Nat.not_lt.mpr hlong), sliceTo_of_le (by omega), ok_bind,
        sliceFrom_of_le (by omega), ok_bind, sliceTo_of_le (by rw [List.length_drop]; omega),
        ok_bind, sliceFrom_of_le (by omega), ok_bind]
      dsimp only
      rw [if_neg (by rw [List.length_drop]; exact not_not.mpr hmod), SURB.nodeAddressFromSlice,
        if_neg (not_not.mpr hhop)]
      simp only [bind_eq_ok, header_fromBytes_eq_ok, copyFromSlice_eq_ok, readKeys_eq_ok hcount]
      rw [eq_surb_toBytes_iff]
      constructor
      · rintro ⟨header, hheader, firstHop, hfirst, keys, hkeys, hsurb⟩
        cases hsurb
        refine ⟨⟨hheader, hfirst, hkeys⟩, ?_⟩
        rintro rfl
        have hnone := congrArg List.length hkeys
        rw [List.length_drop, List.flatMap_nil, List.length_nil] at hnone
        simp only [sizes] at hnone hlong
        omega
      · rintro ⟨⟨hheader, hfirst, hkeys⟩, -⟩
        exact ⟨surb.header, hheader, surb.firstHopAddress, hfirst, surb.payloadKeys, hkeys, rfl⟩
    · rw [surb_fromBytes_uneven hlong hmod]
      constructor
      · intro h
        cases h
      · rintro ⟨rfl, -⟩
        rw [surb_toBytes_length, Nat.add_sub_cancel_left, Nat.mul_mod_left] at hmod
        exact absurd rfl hmod
  · rw [surb_fromBytes_short (Nat.lt_of_not_le hlong)]
    constructor
    · intro h
      cases h
    · rintro ⟨rfl, hkeys⟩
      have hpos := List.length_pos_of_ne_nil hkeys
      have hle := Nat.le_mul_of_pos_left payloadKeySize hpos
      rw [surb_toBytes_length] at hlong
      omega

/-- Any whole number of keys is read. -/
theorem exists_keys {bytes : Bytes} {count : ℕ} (h : bytes.length = count * payloadKeySize) :
    ∃ keys : List (Arr payloadKeySize), bytes = keys.flatMap List.Vector.toList := by
  induction count generalizing bytes with
  | zero =>
      rw [Nat.zero_mul, List.length_eq_zero_iff] at h
      exact ⟨[], h⟩
  | succ count ih =>
      rw [Nat.succ_mul] at h
      have hrest : (bytes.drop payloadKeySize).length = count * payloadKeySize := by
        rw [List.length_drop]
        omega
      have hkey : (bytes.take payloadKeySize).length = payloadKeySize := by
        rw [List.length_take]
        omega
      obtain ⟨keys, hkeys⟩ := ih hrest
      refine ⟨Arr.of _ hkey :: keys, ?_⟩
      rw [List.flatMap_cons, ← hkeys, Arr.toList_of, List.take_append_drop]

/-- Bytes of a right length are a reply block. -/
theorem exists_surb {bytes : Bytes}
    (h : headerSize + nodeAddressLength + payloadKeySize ≤ bytes.length)
    (hmod : (bytes.length - (headerSize + nodeAddressLength)) % payloadKeySize = 0) :
    ∃ surb, SURB.fromBytes bytes = .ok surb := by
  have hheader_len : (bytes.take headerSize).length = headerSize := by
    rw [List.length_take]
    omega
  have hhop : ((bytes.drop headerSize).take nodeAddressLength).length = nodeAddressLength := by
    rw [List.length_take, List.length_drop]
    omega
  have hcount : (bytes.drop (headerSize + nodeAddressLength)).length =
      (bytes.length - (headerSize + nodeAddressLength)) / payloadKeySize * payloadKeySize := by
    rw [List.length_drop]
    exact (Nat.div_mul_cancel (Nat.dvd_of_mod_eq_zero hmod)).symm
  obtain ⟨header, hheader⟩ := exists_header hheader_len
  obtain ⟨keys, hkeys⟩ := exists_keys hcount
  refine ⟨⟨header, Arr.of _ hhop, keys⟩, surb_fromBytes_eq_ok.mpr ⟨?_, ?_⟩⟩
  · rw [SURB.toBytes, ← hheader, Arr.toList_of, ← hkeys, List.append_assoc, ← List.drop_drop,
      List.take_append_drop, List.take_append_drop]
  · rintro rfl
    have hnone := congrArg List.length hkeys
    rw [List.length_drop, List.flatMap_nil, List.length_nil] at hnone
    simp only [sizes] at hnone h
    omega

/-- **The format of reply blocks.**  The bytes that are read as a reply block are those that it is
written as, with at least one key; what is too short, or has a part of a key at its end, is
refused. -/
theorem surb_format (bytes : Bytes) :
    (∀ surb : SURB, SURB.fromBytes bytes = .ok surb ↔
      bytes = surb.toBytes ∧ surb.payloadKeys ≠ []) ∧
    (∀ f, SURB.fromBytes bytes = .error f ↔
      bytes.length < headerSize + nodeAddressLength + payloadKeySize ∧ f = .err ⟨.invalidSURB,
        "not enough bytes provided to try to recover a SURB"⟩ ∨
      headerSize + nodeAddressLength + payloadKeySize ≤ bytes.length ∧
        (bytes.length - (headerSize + nodeAddressLength)) % payloadKeySize ≠ 0 ∧
        f = .err ⟨.invalidSURB, "bytes of invalid length provided"⟩) := by
  refine ⟨fun surb => surb_fromBytes_eq_ok, ?_⟩
  intro f
  constructor
  · intro h
    by_cases hlong : headerSize + nodeAddressLength + payloadKeySize ≤ bytes.length
    · by_cases hmod : (bytes.length - (headerSize + nodeAddressLength)) % payloadKeySize = 0
      · obtain ⟨surb, hsurb⟩ := exists_surb hlong hmod
        rw [hsurb] at h
        cases h
      · rw [surb_fromBytes_uneven hlong hmod] at h
        cases h
        exact .inr ⟨hlong, hmod, rfl⟩
    · rw [surb_fromBytes_short (Nat.lt_of_not_le hlong)] at h
      cases h
      exact .inl ⟨Nat.lt_of_not_le hlong, rfl⟩
  · rintro (⟨hshort, rfl⟩ | ⟨hlong, hmod, rfl⟩)
    · exact surb_fromBytes_short hshort
    · exact surb_fromBytes_uneven hlong hmod

end Eror.Analysis.Sphinx
