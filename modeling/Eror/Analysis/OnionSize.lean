import Eror.Analysis.SenderRole
import Eror.Analysis.WireTransport

/-!
# Sizes

A well-formed onion has a serialized length that depends on the path limit and the lengths of
its two sections only (`wellFormed_serialize_length`), and the hand-counted
`total_header_length` is the length of its packed header.  `unwrap` keeps well-formedness and
both lengths whoever built the onion.  `reply_onion` does not: it takes the whole header of the
reply out of the decrypted forward section, as it finds it there.
-/

set_option autoImplicit false

namespace Eror.Analysis

open Library Model

variable {R : Type} {P : Primitives R} {w c : ℕ} {F : OnionFormat P}

/-! ## Serialized lengths -/

/-- The block that `unwrap` appends has the hand-counted length. -/
theorem fillBlock_length (F : OnionFormat P) (ks : P.SymmetricKey) :
    (F.fillBlock ks).length = F.singleHeaderLength := by
  simp [OnionFormat.fillBlock, OnionFormat.zeroHeader]

/-- The hand-counted length is the length of a header of the right shape.
SRC: src/lib.rs:314-316 -/
theorem packedHeaders_length {header : List (Header P)} (h : HeaderShape F header) :
    (Codec.bytes.list.encode (headerBytes header)).length = F.totalHeaderLength := by
  have hmap : (headerBytes header).map (fun bs => 8 + bs.length) =
      List.replicate F.pathLimit (8 + F.singleHeaderLength) := by
    rw [List.eq_replicate_iff]
    constructor
    · rw [List.length_map, headerBytes_length, h.count]
    · intro x hx
      obtain ⟨bs, hbs, rfl⟩ := List.mem_map.mp hx
      rw [h.block bs hbs]
  rw [Codec.list_bytes_length, hmap, List.sum_replicate, smul_eq_mul]
  rfl

/-- The serialized length of any onion.  SRC: src/lib.rs:189-202 -/
theorem onion_serialize_length (hw : P.tagCodec.FixedWidth w) (o : Onion P) : o.serialize.length =
    (Codec.bytes.list.encode (headerBytes o.header)).length + (8 + o.forward.length) +
      (8 + o.backward.1.length + w) := by
  change (_ ++ (Codec.bytes.encode o.forward ++ (Codec.bytes.encode o.backward.1 ++
    P.tagCodec.encode o.backward.2))).length = _
  simp only [Codec.bytes_encode, List.length_append, toLE_length, hw.length]
  omega

/-- **The serialized length** of a well-formed onion.  SRC: src/lib.rs:304-316 -/
theorem wellFormed_serialize_length (hw : P.tagCodec.FixedWidth w) {o : Onion P}
    (h : o.WellFormed F) : o.serialize.length =
      F.totalHeaderLength + (8 + o.forward.length) + (8 + o.backward.1.length + w) := by
  rw [onion_serialize_length hw, packedHeaders_length h]

/-! ## Blocks with a public-key ciphertext

The hand-counted `single_header_length` presupposes the sizes of `EcPrimitives`: tags of 16
bytes and 40 bytes of public-key overhead. -/

/-- The length of a packed block whose data is the ciphertext of a key and its meta-information. -/
def sealedLength (P : Primitives R) (tagWidth overhead : ℕ) : ℕ :=
  tagWidth + 8 + (P.symmetricKeyLength + (addressLength + 4) + overhead)

/-- The hand-counted length is that of a sealed block for just one sum of tag and overhead.
SRC: src/lib.rs:304-312 -/
theorem sealedLength_eq_iff (F : OnionFormat P) :
    sealedLength P w c = F.singleHeaderLength ↔ w + c = 56 := by
  rw [sealedLength, OnionFormat.singleHeaderLength]
  omega

/-- A block of the hand-counted length is a vector.  SRC: src/lib.rs:304-312 -/
theorem singleHeaderLength_lt (hW : P.Widths w c) (F : OnionFormat P) :
    F.singleHeaderLength < 2 ^ 64 := by
  have hsize := hW.length_lt
  rw [OnionFormat.singleHeaderLength]
  omega

/-- So is a sealed block, when it has that length. -/
theorem sealedLength_lt (hW : P.Widths w c) (hsum : w + c = 56) : sealedLength P w c < 2 ^ 64 := by
  have hsize := hW.length_lt
  rw [sealedLength]
  omega

/-- A ciphertext of a key and its meta-information, in a block with a tag, has that length. -/
theorem pack_cipher_length (hW : P.Widths w c) (tag : P.Tag) (rng : R) (pk : P.PublicKey)
    (km : P.SymmetricKey × Meta) :
    (HeaderBlock.pack ⟨tag, (P.asymmetricEncrypt rng pk ((keyMetaCodec P).encode km)).1⟩).length =
      sealedLength P w c := by
  rw [pack_length hW.tag, hW.cipher, keyMeta_encode_length hW, sealedLength]

/-- An onion that is wrapped once around blocks of the hand-counted length is well-formed, when a
sealed block has that length as well. -/
theorem forge_wellFormed (hW : P.Widths w c) (hsum : w + c = 56) (rng : R) (pk : P.PublicKey)
    (key : P.SymmetricKey) (hopMeta : Meta) {headers : List (Header P)}
    (hcount : headers.length + 1 = F.pathLimit)
    (hblock : ∀ bs ∈ headerBytes headers, bs.length = F.singleHeaderLength) (payload : Bytes)
    (backward : Backward P) :
    (forge P rng pk key hopMeta headers payload backward).WellFormed F := by
  constructor
  · rw [forge, wrapOnion_header_length, hcount]
  · intro bs hbs
    obtain ⟨h, hh, rfl⟩ := List.mem_map.mp hbs
    rcases List.mem_cons.mp hh with rfl | hh
    · exact (pack_cipher_length hW _ rng pk (key, hopMeta)).trans ((sealedLength_eq_iff F).mpr hsum)
    · obtain ⟨i, hi, rfl⟩ := List.mem_mapIdx.mp hh
      rw [Header.intoBytes_raw, P.symmetricEncrypt_length]
      exact hblock _ (List.mem_map_of_mem (List.getElem_mem _))

/-! ## What a node emits -/

/-- INTERNAL: a well-formed onion stays well-formed when a layer is removed.
SRC: src/lib.rs:560-572 -/
theorem wellFormed_peelOnion {o : Onion P} (h : o.WellFormed F) (hpos : 0 < F.pathLimit)
    (key : P.SymmetricKey) : (peelOnion F key o).WellFormed F := by
  have hblocks : headerBytes (peelOnion F key o).header = _ :=
    congrArg Front.blocks (front_peelOnion key hpos h.count)
  constructor
  · rw [← headerBytes_length, hblocks]
    simp only [peelFront, front, shiftOut_length, headerBytes_length, h.count]
    omega
  · intro bs hbs
    rw [hblocks] at hbs
    simp only [peelFront, front, shiftOut, List.mem_append, List.mem_singleton] at hbs
    rcases hbs with hbs | rfl
    · obtain ⟨i, hi, rfl⟩ := List.mem_mapIdx.mp hbs
      rw [decBlock, P.symmetricDecrypt_length]
      exact h.block _ (List.mem_of_mem_tail (List.getElem_mem _))
    · exact fillBlock_length F _

/-- **`unwrap` keeps well-formedness** and the lengths of both sections.  SRC: src/lib.rs:560-572 -/
theorem wellFormed_of_unwrap (hw : P.tagCodec.FixedWidth w) {sk : P.PrivateKey} {o n : Onion P}
    {key : P.SymmetricKey} {hopMeta : Meta} (h : o.WellFormed F)
    (hunwrap : F.unwrap sk o = .ok (key, hopMeta, n)) :
    n.WellFormed F ∧ n.forward.length = o.forward.length ∧
      n.backward.1.length = o.backward.1.length := by
  obtain ⟨-, hlen, rfl⟩ := authentic_of_unwrap hw hunwrap
  have hpos : 0 < F.pathLimit := by
    have := h.count
    omega
  exact ⟨wellFormed_peelOnion h hpos key, P.symmetricDecrypt_length .., peelBackward_length ..⟩

/-- INTERNAL: the sections of a reply have the lengths of the sections received, and its header
is the one packed in front of the payload.  SRC: src/lib.rs:590-608 -/
theorem replyOnion_sections {sk : P.PrivateKey} {o n reply : Onion P} {key : P.SymmetricKey}
    {hopMeta : Meta} {next : Address} {payload : Bytes}
    (hunwrap : F.unwrap sk o = .ok (key, hopMeta, n))
    (hreply : F.replyOnion sk o payload = .ok (reply, next)) :
    (∃ message, F.splitReplyHeader n.forward = .ok (reply.header, message)) ∧
      reply.forward.length = o.forward.length ∧ reply.backward.1.length = payload.length := by
  obtain ⟨key', hopMeta', n', hunwrap', hrole⟩ := unwrap_of_replyOnion hreply
  rw [hunwrap] at hunwrap'
  cases hunwrap'
  rw [replyOnion_of_receiver hunwrap hrole, bind_eq_ok] at hreply
  obtain ⟨⟨header, message⟩, hsplit, hmk⟩ := hreply
  cases hmk
  exact ⟨⟨message, hsplit⟩, by simp, aeEnc_length ..⟩

/-- Whatever well-formed onion a node receives: the onion a hop emits is well-formed and of the
same serialized length.  A reply has the header that the builder packed in front of the payload
and sections of the lengths received; it is well-formed, and then of the same serialized length,
if and only if that header is `max_path_length` blocks of `single_header_length` bytes.
SRC: src/lib.rs:582-611, 687-692, 697-736 -/
theorem emitted_wellFormed (hw : P.tagCodec.FixedWidth w) (F : OnionFormat P) (sk : P.PrivateKey)
    (o : Onion P) (ho : o.WellFormed F) :
    (∀ lookup next n, F.procOnion sk lookup o = .ok (.hop next n) →
        n.WellFormed F ∧ n.serialize.length = o.serialize.length) ∧
      ∀ payload reply next, payload.length = o.backward.1.length →
        F.replyOnion sk o payload = .ok (reply, next) →
        reply.forward.length = o.forward.length ∧
          reply.backward.1.length = o.backward.1.length ∧
          (reply.WellFormed F → reply.serialize.length = o.serialize.length) ∧
          ∃ key hopMeta n, F.unwrap sk o = .ok (key, hopMeta, n) ∧
            (reply.WellFormed F ↔ ∃ header message,
              F.splitReplyHeader n.forward = .ok (header, message) ∧ HeaderShape F header) := by
  constructor
  · intro lookup next n h
    obtain ⟨key, hunwrap⟩ := unwrap_of_procOnion_hop h
    obtain ⟨hn, hforward, hbackward⟩ := wellFormed_of_unwrap hw ho hunwrap
    refine ⟨hn, ?_⟩
    rw [wellFormed_serialize_length hw hn, wellFormed_serialize_length hw ho, hforward, hbackward]
  · intro payload reply next hpayload hreply
    obtain ⟨key, hopMeta, n, hunwrap, -⟩ := unwrap_of_replyOnion hreply
    obtain ⟨⟨message, hsplit⟩, hforward, hbackward⟩ := replyOnion_sections hunwrap hreply
    rw [hpayload] at hbackward
    refine ⟨hforward, hbackward, ?_, key, hopMeta, n, hunwrap, ?_, ?_⟩
    · intro hr
      rw [wellFormed_serialize_length hw hr, wellFormed_serialize_length hw ho, hforward,
        hbackward]
    · intro hr
      exact ⟨_, message, hsplit, hr⟩
    · rintro ⟨header, message', hsplit', hshape⟩
      rw [hsplit] at hsplit'
      cases hsplit'
      exact hshape

/-- Blocks of the length of a single header. -/
def samplePadding (n : ℕ) : List (Header samplePrimitives) :=
  List.replicate n (.raw (List.replicate 116 0))

/-- An onion that `sampleAddress 7` opens in `role`: `n` blocks behind the first one, and the
reply header `blocks` in front of an empty payload. -/
def sampleOnion (n : ℕ) (role : Role) (blocks : List Bytes) : Onion samplePrimitives :=
  forge samplePrimitives 0 (samplePrivateKey (sampleAddress 7)) (List.Vector.replicate 16 9)
    ⟨role, sampleAddress 3⟩ (samplePadding n) (replyCodec.encode (blocks, []))
    ([], samplePrimitives.defaultTag)

/-- There are as many blocks as are asked for. -/
theorem samplePadding_length (n : ℕ) : (samplePadding n).length = n := List.length_replicate ..

/-- They have the hand-counted length. -/
theorem samplePadding_block (F : OnionFormat samplePrimitives) (n : ℕ) :
    ∀ bs ∈ headerBytes (samplePadding n), bs.length = F.singleHeaderLength := by
  intro bs hbs
  obtain ⟨h, hh, rfl⟩ := List.mem_map.mp hbs
  rw [List.eq_of_mem_replicate hh]
  rfl

/-- The sample is well-formed. -/
theorem sampleOnion_wellFormed {F : OnionFormat samplePrimitives} {n : ℕ}
    (hF : n + 1 = F.pathLimit) (role : Role) (blocks : List Bytes) :
    (sampleOnion n role blocks).WellFormed F := by
  have hlen : (samplePadding n).length + 1 = F.pathLimit := by rw [samplePadding_length, hF]
  exact forge_wellFormed samplePrimitives_widths rfl _ _ _ _ hlen (samplePadding_block F n) _ _

/-- The node obtains the role and the forward section. -/
theorem unwrap_sampleOnion {F : OnionFormat samplePrimitives} {n : ℕ}
    (hF : n + 1 = F.pathLimit) (role : Role) (blocks : List Bytes) : ∃ o,
    F.unwrap (samplePrivateKey (sampleAddress 7)) (sampleOnion n role blocks) =
        .ok (List.Vector.replicate 16 9, ⟨role, sampleAddress 3⟩, o) ∧
      o.forward = replyCodec.encode (blocks, []) := by
  have hlen : (samplePadding n).length + 1 = F.pathLimit := by rw [samplePadding_length, hF]
  exact ⟨_, unwrap_forge samplePrimitives_widths (samplePrimitives_isKeyPair _) 0 _ _ hlen _ _,
    samplePrimitives_lawful.symmetricDecrypt_symmetricEncrypt _ _ _⟩

/-- A reply has the blocks that are in front of the payload. -/
theorem replyOnion_sampleOnion {F : OnionFormat samplePrimitives} {n : ℕ}
    (hF : n + 1 = F.pathLimit) (blocks : List Bytes)
    (hblocks : AddressableHeader (P := samplePrimitives) (blocks.map .raw)) :
    ∃ reply next, F.replyOnion (samplePrivateKey (sampleAddress 7))
      (sampleOnion n .receiver blocks) [] = .ok (reply, next) ∧
        reply.header = blocks.map .raw := by
  obtain ⟨n, hunwrap, hforward⟩ := unwrap_sampleOnion hF .receiver blocks
  have hnil : ([] : Bytes).length < 2 ^ 64 := by decide
  have hsplit := splitReplyHeader_encode F hblocks hnil
  rw [headerBytes_map_raw] at hsplit
  have hreply := replyOnion_of_receiver hunwrap rfl []
  rw [hforward, hsplit, ok_bind] at hreply
  exact ⟨_, _, hreply, rfl⟩

/-- With two blocks to an onion, a hop sends an onion as long as the one that it received, and so
does the receiver, when it finds two blocks of 116 bytes in front of the payload. -/
theorem emitted_wellFormed_sample :
    (∃ next n, (sampleFormat 2).procOnion (samplePrivateKey (sampleAddress 7)) (fun _ => none)
        (sampleOnion 1 .hop []) = .ok (.hop next n) ∧ n.WellFormed (sampleFormat 2) ∧
        n.serialize.length = (sampleOnion 1 .hop []).serialize.length) ∧
      ∃ reply next, (sampleFormat 2).replyOnion (samplePrivateKey (sampleAddress 7))
          (sampleOnion 1 .receiver (List.replicate 2 (List.replicate 116 0))) [] =
            .ok (reply, next) ∧ reply.WellFormed (sampleFormat 2) ∧ reply.serialize.length =
          (sampleOnion 1 .receiver (List.replicate 2 (List.replicate 116 0))).serialize.length := by
  constructor
  · obtain ⟨n, hunwrap, -⟩ := unwrap_sampleOnion (F := sampleFormat 2) (n := 1) rfl .hop []
    have hproc := procOnion_of_hop hunwrap rfl fun _ => none
    obtain ⟨hhop, -⟩ := emitted_wellFormed samplePrimitives_widths.tag (sampleFormat 2) _ _
      (sampleOnion_wellFormed (n := 1) rfl .hop [])
    exact ⟨_, n, hproc, hhop _ _ n hproc⟩
  · obtain ⟨reply, next, hreply, hheader⟩ := replyOnion_sampleOnion (F := sampleFormat 2)
      (n := 1) rfl (List.replicate 2 (List.replicate 116 0)) ⟨by decide, by decide⟩
    have hshape : reply.WellFormed (sampleFormat 2) := by
      rw [Onion.WellFormed, hheader, List.map_replicate]
      exact ⟨samplePadding_length 2, samplePadding_block (sampleFormat 2) 2⟩
    obtain ⟨-, hanswer⟩ := emitted_wellFormed samplePrimitives_widths.tag (sampleFormat 2) _ _
      (sampleOnion_wellFormed (n := 1) rfl .receiver
        (List.replicate 2 (List.replicate 116 0)))
    exact ⟨reply, next, hreply, hshape, (hanswer [] reply next rfl hreply).2.2.1 hshape⟩

/-- With no block in front of the payload, the reply to a well-formed onion has no header and is
shorter than the onion.  SRC: src/lib.rs:596-608 -/
theorem emitted_wellFormed_fails : ∃ (o reply : Onion samplePrimitives) (next : Address),
    o.WellFormed (sampleFormat 1) ∧ o.backward.1 = [] ∧
      (sampleFormat 1).replyOnion (samplePrivateKey (sampleAddress 7)) o [] = .ok (reply, next) ∧
      ¬ reply.WellFormed (sampleFormat 1) ∧ reply.serialize.length ≠ o.serialize.length := by
  obtain ⟨reply, next, hreply, hheader⟩ := replyOnion_sampleOnion (F := sampleFormat 1)
    (n := 0) rfl [] ⟨by decide, by simp⟩
  have hwf := sampleOnion_wellFormed (F := sampleFormat 1) (n := 0) rfl .receiver []
  obtain ⟨n, hunwrap, -⟩ := unwrap_sampleOnion (F := sampleFormat 1) (n := 0) rfl .receiver []
  obtain ⟨-, hforward, hbackward⟩ := replyOnion_sections hunwrap hreply
  refine ⟨_, reply, next, hwf, rfl, hreply, ?_, ?_⟩
  · intro h
    have hcount := h.count
    rw [hheader] at hcount
    cases hcount
  · have hreceived : (sampleFormat 1).totalHeaderLength = 132 := rfl
    have hpacked : (Codec.bytes.list.encode (headerBytes reply.header)).length = 8 := by
      rw [hheader]
      rfl
    have hempty : ([] : Bytes).length = (sampleOnion 0 .receiver []).backward.1.length := rfl
    rw [wellFormed_serialize_length (Codec.array_fixedWidth 16) hwf,
      onion_serialize_length (Codec.array_fixedWidth 16), hreceived, hpacked, hforward, hbackward,
      hempty]
    omega

end Eror.Analysis
