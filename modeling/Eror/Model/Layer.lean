import Eror.Model.Data

/-!
# One layer of an onion

The lower half of src/lib.rs: the authenticated encryption of the backward section, and
`wrap` and `unwrap`, which put one layer on an onion and take one off.
-/

set_option autoImplicit false

namespace Eror.Model

open Library

variable {R : Type} {P : Primitives R}

/-! ## The backward section -/

/-- Encrypt a payload, with a tag that hides `ad`.  SRC: src/lib.rs:326-339 -/
def aeEnc (P : Primitives R) (key : P.SymmetricKey) (ad : P.Tag) (payload : Bytes) : Backward P :=
  let keySymmetric := P.deriveKey .symEnc key
  let keyMac := P.deriveKey .mac key
  let ciphertext := P.symmetricEncrypt keySymmetric nonceAe payload
  let mac := P.tag keyMac ciphertext
  (ciphertext, P.xorTag mac ad)

/-- The payload, if the tag is the one that belongs to the ciphertext and `ad`.
SRC: src/lib.rs:341-356 -/
def aeDec (P : Primitives R) (key : P.SymmetricKey) (ad : P.Tag) (bwd : Backward P) :
    Option Bytes :=
  let keySymmetric := P.deriveKey .symEnc key
  let keyMac := P.deriveKey .mac key
  let tag := P.xorTag (P.tag keyMac bwd.1) ad
  if tag ≠ bwd.2 then none
  else some (P.symmetricDecrypt keySymmetric nonceAe bwd.1)

/-- The body that `aeUnwrap` and `aeWrap` share: pass tag and ciphertext through the cipher
as one buffer, and split it again where the tag ended. -/
def aeLayer (P : Primitives R) (cipher : P.SymmetricKey → UInt32 → Bytes → Bytes)
    (key : P.SymmetricKey) (bwd : Backward P) : Exec (Backward P) := do
  let keySymmetric := P.deriveKey .symEnc key
  let packedTag := P.tagCodec.encode bwd.2
  let tagLen := packedTag.length
  let buffer := cipher keySymmetric nonceBwd (packedTag ++ bwd.1)
  let tag ← orPanic (P.tagCodec.deserialize (buffer.take tagLen))
  return (buffer.drop tagLen, tag)

/-- Take a layer off the backward section.  SRC: src/lib.rs:358-370 -/
def aeUnwrap (P : Primitives R) (key : P.SymmetricKey) (bwd : Backward P) : Exec (Backward P) :=
  aeLayer P P.symmetricDecrypt key bwd

/-- Put a layer on the backward section.  SRC: src/lib.rs:372-384 -/
def aeWrap (P : Primitives R) (key : P.SymmetricKey) (bwd : Backward P) : Exec (Backward P) :=
  aeLayer P P.symmetricEncrypt key bwd

/-! ## Header and forward section -/

/-- The nonce of the block at place `i` of the header without its first block:
`i as u32 + 2`. -/
def blockNonce (i : ℕ) : UInt32 := UInt32.ofNat i + 2

/-- The bytes that a layer's MAC is taken of: `pack((&data, &headers, &payload))`, where each
block is written as the byte string of its byte form. -/
def macInput (data : Bytes) (headers : List (Header P)) (payload : Bytes) : Bytes :=
  (Codec.bytes.pair (Codec.bytes.list.pair Codec.bytes)).encode (data, headerBytes headers, payload)

/-- Put a layer on the blocks and the forward section, with the first block in front.
SRC: src/lib.rs:386-414 -/
def wrap (P : Primitives R) (key : P.SymmetricKey) (ciphertext : Bytes) (headers : List (Header P))
    (payload : Bytes) : List (Header P) × Bytes :=
  let keySymmetric := P.deriveKey .symEnc key
  let keyMac := P.deriveKey .mac key
  let newHeaders : List (Header P) := headers.mapIdx fun i h =>
    .raw (P.symmetricEncrypt keySymmetric (blockNonce i) h.intoBytes)
  let payload := P.symmetricEncrypt keySymmetric nonceFwd payload
  let tag := P.tag keyMac (macInput ciphertext newHeaders payload)
  (.parsed ⟨tag, ciphertext⟩ :: newHeaders, payload)

/-- One round of the loop of `unwrap`: read the block behind place `i` and put it there
decrypted.  SRC: src/lib.rs:561-563 -/
def shiftBlock (P : Primitives R) (keySymmetric : P.SymmetricKey) (header : List (Header P))
    (i : ℕ) : Exec (List (Header P)) := do
  let block ← orPanic header[i + 1]?
  let data := P.symmetricDecrypt keySymmetric (blockNonce i) block.intoBytes
  return header.set i (.raw data)

namespace OnionFormat

/-- The block that `unwrap` appends: the zero block, decrypted.  SRC: src/lib.rs:566-567 -/
def fillBlock (F : OnionFormat P) (keySymmetric : P.SymmetricKey) : Bytes :=
  P.symmetricDecrypt keySymmetric (F.maxPathLength + 1) F.zeroHeader.intoBytes

/-- Take the layer of the holder of the private key off.  `i + 1` and `i as u32 + 2` do not
overflow in the loop.  SRC: src/lib.rs:545-575 -/
def unwrapIn (F : OnionFormat P) (p : Profile) (privateKey : P.PrivateKey) (onion : Onion P) :
    Exec (P.SymmetricKey × Meta × Onion P) := do
  let first ← orPanic onion.header[0]?
  let header ← first.intoParsed
  let decryptedMeta ← P.asymmetricDecrypt privateKey header.data
  let (key, hopMeta) ← orErr ((keyMetaCodec P).deserialize decryptedMeta) .macMismatch
  let keySymmetric := P.deriveKey .symEnc key
  let keyMac := P.deriveKey .mac key
  let tag := P.tag keyMac (macInput header.data onion.header.tail onion.forward)
  if tag ≠ header.tag then
    .error (.err .macMismatch)
  else do
    -- `for i in 0usize..self.max_path_length as usize - 1`
    p.check (1 ≤ F.pathLimit)
    let shifted ← (range 0 (wrappingSub 64 F.pathLimit 1)).foldlM (shiftBlock P keySymmetric)
      onion.header
    -- `self.max_path_length + 1`
    p.check (F.pathLimit + 1 < 2 ^ 32)
    -- `*onion.header.last_mut().unwrap() = data`
    let _ ← orPanic shifted.getLast?
    let newHeader := shifted.set (shifted.length - 1) (.raw (F.fillBlock keySymmetric))
    let forward := P.symmetricDecrypt keySymmetric nonceFwd onion.forward
    let backward ← aeUnwrap P key onion.backward
    return (key, hopMeta, ⟨newHeader, forward, backward⟩)

@[inherit_doc unwrapIn]
def unwrap (F : OnionFormat P) (privateKey : P.PrivateKey) (onion : Onion P) :
    Exec (P.SymmetricKey × Meta × Onion P) :=
  F.unwrapIn .release privateKey onion

end OnionFormat

end Eror.Model
