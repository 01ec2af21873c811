import Eror.Analysis.UnwrapLayer

/-!
# `wrap` builds what `unwrap` accepts

Whoever knows a node's public key can build an authentic layer for it: encrypt a key and the
meta-information to the node, and `wrap` any blocks and any payload with that key
(`authentic_forge`).  On a header whose last block is the one the node will append, `unwrap`
returns exactly what was wrapped (`peelFront_wrap`), because the two number the blocks alike
although `wrap` numbers the inner list and `unwrap` the outer one.
-/

set_option autoImplicit false

namespace Eror.Analysis

open Library Model

variable {R : Type} {P : Primitives R} {w c : ℕ}

/-! ## Round trips of the formats -/

/-- Every meta-information can be written. -/
theorem meta_fits (m : Meta) : Meta.codec.Fits m := by
  refine ⟨?_, trivial⟩
  change Role.index m.role < 256 ^ 4
  cases m.role <;> decide

/-- It takes an address and four bytes for the role.  SRC: src/lib.rs:56-59 -/
theorem meta_encode_length (m : Meta) : (Meta.codec.encode m).length = addressLength + 4 := by
  change (toLE 4 _ ++ m.next.toList).length = _
  simp only [List.length_append, toLE_length, List.Vector.toList_length]
  exact Nat.add_comm _ _

/-- So can a key with it. -/
theorem keyMeta_fits {n : ℕ} (hw : P.keyCodec.FixedWidth n) (p : P.SymmetricKey × Meta) :
    (keyMetaCodec P).Fits p :=
  ⟨hw.fits _, meta_fits _⟩

/-- The length of what a block encrypts. -/
theorem keyMeta_encode_length (hW : P.Widths w c) (p : P.SymmetricKey × Meta) :
    ((keyMetaCodec P).encode p).length = P.symmetricKeyLength + (addressLength + 4) := by
  change (P.keyCodec.encode p.1 ++ Meta.codec.encode p.2).length = _
  rw [List.length_append, hW.key.length, meta_encode_length]

/-- It is a vector. -/
theorem keyMeta_length_lt (hW : P.Widths w c) (p : P.SymmetricKey × Meta) :
    ((keyMetaCodec P).encode p).length < 2 ^ 64 := by
  have := hW.length_lt
  rw [keyMeta_encode_length hW]
  omega

/-- A block is read back from its bytes.  SRC: src/lib.rs:73-80 -/
theorem unpack_pack (hw : P.tagCodec.FixedWidth w) (b : HeaderBlock P)
    (hlen : b.data.length < 2 ^ 64) : HeaderBlock.unpack b.pack = .ok b := by
  rw [HeaderBlock.unpack, HeaderBlock.pack, Codec.deserialize_encode]
  · rfl
  · exact ⟨hw.fits _, (Codec.bytes_fits _).mpr hlen⟩

/-- A packed block is its tag, a length and its data.  SRC: src/lib.rs:73-75 -/
theorem pack_length (hw : P.tagCodec.FixedWidth w) (b : HeaderBlock P) :
    b.pack.length = w + 8 + b.data.length := by
  change (P.tagCodec.encode b.tag ++ Codec.bytes.encode b.data).length = _
  rw [List.length_append, hw.length, Codec.bytes_encode, List.length_append, toLE_length]
  omega

/-! ## Layers -/

/-- A block that was encrypted is decrypted. -/
theorem decBlock_encBlock (hP : P.Lawful) (ks : P.SymmetricKey) (i : ℕ) (b : Bytes) :
    decBlock P ks i (encBlock P ks i b) = b :=
  hP.symmetricDecrypt_symmetricEncrypt _ _ _

/-- A block that was decrypted is encrypted. -/
theorem encBlock_decBlock (hP : P.Lawful) (ks : P.SymmetricKey) (i : ℕ) (b : Bytes) :
    encBlock P ks i (decBlock P ks i b) = b :=
  hP.symmetricEncrypt_symmetricDecrypt _ _ _

/-- The onion that consists of a wrapped header and payload, with any backward section. -/
def wrapOnion (P : Primitives R) (key : P.SymmetricKey) (cipher : Bytes)
    (headers : List (Header P)) (payload : Bytes) (backward : Backward P) : Onion P :=
  ⟨(wrap P key cipher headers payload).1, (wrap P key cipher headers payload).2, backward⟩

/-- A header whose first block has the given data and the tag of all that it is sent with. -/
def taggedHeader (P : Primitives R) (key : P.SymmetricKey) (cipher : Bytes)
    (rest : List (Header P)) (payload : Bytes) : List (Header P) :=
  .structured (P.tag (P.deriveKey .mac key) (macInput cipher rest payload)) cipher :: rest

/-- **What is tagged is authentic** for the holder of the private key that the first block's
data was encrypted to.  SRC: src/lib.rs:409-412, 511-513, 545-559 -/
theorem authentic_tagged (hW : P.Widths w c) {sk : P.PrivateKey} {key : P.SymmetricKey}
    {hopMeta : Meta} {cipher : Bytes}
    (hdec : P.asymmetricDecrypt sk cipher = .ok ((keyMetaCodec P).encode (key, hopMeta)))
    (hlen : cipher.length < 2 ^ 64) (rest : List (Header P)) (payload : Bytes)
    (backward : Backward P) :
    Authentic P sk ⟨taggedHeader P key cipher rest payload, payload, backward⟩ key hopMeta := by
  refine ⟨_, ⟨_, _, _, rfl, unpack_pack hW.tag _ hlen, hdec, ?_⟩, rfl⟩
  exact Codec.deserialize_encode _ _ (keyMeta_fits hW.key _)

/-- A ciphertext is a vector. -/
theorem cipher_length_lt (hW : P.Widths w c) (rng : R) (pk : P.PublicKey)
    (km : P.SymmetricKey × Meta) :
    (P.asymmetricEncrypt rng pk ((keyMetaCodec P).encode km)).1.length < 2 ^ 64 := by
  rw [hW.cipher, keyMeta_encode_length hW]
  have := hW.length_lt
  omega

/-- An onion that anyone can build for a node: encrypt a key and any meta-information to the
node's public key, and wrap any blocks and any payload with that key. -/
def forge (P : Primitives R) (rng : R) (pk : P.PublicKey) (key : P.SymmetricKey) (hopMeta : Meta)
    (headers : List (Header P)) (payload : Bytes) (backward : Backward P) : Onion P :=
  wrapOnion P key (P.asymmetricEncrypt rng pk ((keyMetaCodec P).encode (key, hopMeta))).1
    headers payload backward

/-- A forged layer is authentic. -/
theorem authentic_forge (hW : P.Widths w c) {sk : P.PrivateKey} {pk : P.PublicKey}
    (hpk : P.IsKeyPair sk pk) (rng : R) (key : P.SymmetricKey) (hopMeta : Meta)
    (headers : List (Header P)) (payload : Bytes) (backward : Backward P) :
    Authentic P sk (forge P rng pk key hopMeta headers payload backward) key hopMeta :=
  authentic_tagged hW (hpk _ _ (keyMeta_length_lt hW _))
    (cipher_length_lt hW rng pk (key, hopMeta)) _ _ backward

/-- A layer adds a block.  SRC: src/lib.rs:386-414 -/
theorem wrapOnion_header_length (key : P.SymmetricKey) (cipher : Bytes)
    (headers : List (Header P)) (payload : Bytes) (backward : Backward P) :
    (wrapOnion P key cipher headers payload backward).header.length = headers.length + 1 := by
  simp [wrapOnion, wrap]

/-- **A forged layer is taken off**, when it has as many blocks as the limit.
SRC: src/lib.rs:545-575 -/
theorem unwrap_forge (hW : P.Widths w c) {F : OnionFormat P} {sk : P.PrivateKey}
    {pk : P.PublicKey} (hpk : P.IsKeyPair sk pk) (rng : R) (key : P.SymmetricKey) (hopMeta : Meta)
    {headers : List (Header P)} (hlen : headers.length + 1 = F.pathLimit) (payload : Bytes)
    (backward : Backward P) :
    F.unwrap sk (forge P rng pk key hopMeta headers payload backward) =
      .ok (key, hopMeta,
        peelOnion F key (forge P rng pk key hopMeta headers payload backward)) := by
  refine unwrap_of_authentic hW.tag (authentic_forge hW hpk rng key hopMeta headers payload _) ?_
  rw [rounds_of_pos (by omega), forge, wrapOnion_header_length]
  omega

/-- The first block that `wrap` puts before the others. -/
def wrapBlock (P : Primitives R) (key : P.SymmetricKey) (cipher : Bytes)
    (headers : List (Header P)) (payload : Bytes) : Bytes :=
  HeaderBlock.pack ⟨P.tag (P.deriveKey .mac key) (macInput cipher
    (wrap P key cipher headers payload).1.tail (wrap P key cipher headers payload).2), cipher⟩

/-- The first block stands before the others, encrypted in their places.  SRC: src/lib.rs:386-414 -/
theorem headerBytes_wrap_cons (key : P.SymmetricKey) (cipher : Bytes) (headers : List (Header P))
    (payload : Bytes) : headerBytes (wrap P key cipher headers payload).1 =
      wrapBlock P key cipher headers payload ::
        (headerBytes headers).mapIdx (encBlock P (P.deriveKey .symEnc key)) := by
  refine congrArg₂ List.cons rfl ?_
  apply List.ext_getElem
  · simp [headerBytes]
  · intro i h₁ h₂
    simp [headerBytes, encBlock]

/-- INTERNAL: with the last block dropped, as `onionize` does before each call, `wrap` is a
shift register step.  SRC: src/lib.rs:396-412, 521-522 -/
theorem headerBytes_wrap (key : P.SymmetricKey) (cipher : Bytes) (headers : List (Header P))
    (payload : Bytes) : headerBytes (wrap P key cipher headers.dropLast payload).1 =
      shiftIn (encBlock P (P.deriveKey .symEnc key))
        (wrapBlock P key cipher headers.dropLast payload) (headerBytes headers) := by
  rw [headerBytes_wrap_cons, shiftIn, headerBytes, headerBytes, List.map_dropLast]

/-- **`unwrap` returns what was wrapped**, when the dropped block is the one it appends.
SRC: src/lib.rs:386-414, 560-571 -/
theorem peelFront_wrap (hP : P.Lawful) (F : OnionFormat P) (key : P.SymmetricKey)
    (cipher : Bytes) {headers : List (Header P)} (payload : Bytes)
    (hne : headerBytes headers ≠ [])
    (hlast : (headerBytes headers).getLast hne = F.fillBlock (P.deriveKey .symEnc key))
    (backward : Backward P) :
    peelFront F key (front (wrapOnion P key cipher headers.dropLast payload backward)) =
      ⟨headerBytes headers, payload⟩ := by
  rw [peelFront, front, wrapOnion, headerBytes_wrap]
  exact congrArg₂ Front.mk (shiftOut_shiftIn (decBlock_encBlock hP _) hne hlast)
    (hP.symmetricDecrypt_symmetricEncrypt _ _ payload)

end Eror.Analysis
