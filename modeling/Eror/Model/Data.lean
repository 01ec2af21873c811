import Eror.Model.Primitives

/-!
# Onions and their serialization

The data types of src/lib.rs and src/pki.rs, with the bytes bincode writes for them.  A
header block is either raw or parsed; every serializer sees it through `intoBytes`, so the
formats below are formats of byte strings, and reading one back yields raw blocks only.
-/

set_option autoImplicit false

namespace Eror.Model

open Library

/-! ## Meta information -/

/-- `ADDRESS_LENGTH`  SRC: src/lib.rs:31 -/
def addressLength : ℕ := 32

/-- Address of mix nodes and recipients.  SRC: src/lib.rs:30 -/
abbrev Address := List.Vector UInt8 addressLength

/-- Nonces of the payloads.  SRC: src/lib.rs:33-40 -/
def nonceBwd : UInt32 := 0xFFAAFFAA

@[inherit_doc nonceBwd]
def nonceFwd : UInt32 := 0xAAFFAAFF

@[inherit_doc nonceBwd]
def nonceAe : UInt32 := 0xFAFAFAFA

/-- The role that the current mix node has in the path.  SRC: src/lib.rs:43-52 -/
inductive Role
  | sender
  | receiver
  | hop
  deriving DecidableEq, Repr

/-- The number of a variant, in the order of its declaration. -/
def Role.index : Role → ℕ
  | .sender => 0
  | .receiver => 1
  | .hop => 2

/-- The variant that a number stands for. -/
def Role.ofIndex : ℕ → Option Role
  | 0 => some .sender
  | 1 => some .receiver
  | 2 => some .hop
  | _ => none

/-- A variant is written as its index, an integer of four bytes. -/
def Role.codec : Codec Role :=
  (Codec.nat 4).map Role.index Role.ofIndex
    (fun r _ => by cases r <;> rfl)
    (fun n r h => by
      match n with
      | 0 | 1 | 2 => cases h; rfl
      | n + 3 => simp [Role.ofIndex] at h)

/-- Meta-information that is contained in a header block.  SRC: src/lib.rs:56-59 -/
structure Meta where
  role : Role
  next : Address
  deriving DecidableEq

/-- The role, and the next address behind it. -/
def Meta.codec : Codec Meta :=
  (Role.codec.pair (Codec.array addressLength)).map (fun m => (m.role, m.next))
    (fun p => some ⟨p.1, p.2⟩) (fun _ _ => rfl) (fun p m h => by cases h; rfl)

/-- The pair of path lengths that the sender keeps in its own `next`.  SRC: src/lib.rs:654 -/
def countersCodec : Codec (ℕ × ℕ) := (Codec.nat 8).pair (Codec.nat 8)

variable {R : Type}

/-- What a header block encrypts: the symmetric key and the meta-information. -/
def keyMetaCodec (P : Primitives R) : Codec (P.SymmetricKey × Meta) := P.keyCodec.pair Meta.codec

/-! ## Header blocks -/

/-- A single block of the header.  SRC: src/lib.rs:65-69 -/
structure HeaderBlock (P : Primitives R) where
  tag : P.Tag
  data : Bytes

namespace HeaderBlock

variable {P : Primitives R}

/-- The tag, and the data behind it. -/
def codec (P : Primitives R) : Codec (HeaderBlock P) :=
  (P.tagCodec.pair Codec.bytes).map (fun b => (b.tag, b.data))
    (fun p => some ⟨p.1, p.2⟩) (fun _ _ => rfl) (fun p b h => by cases h; rfl)

/-- The bytes of a block.  SRC: src/lib.rs:73-75 -/
def pack (b : HeaderBlock P) : Bytes := (codec P).encode b

/-- The block that bytes are read as.  SRC: src/lib.rs:78-80 -/
def unpack (data : Bytes) : Exec (HeaderBlock P) :=
  orErr ((codec P).deserialize data) .serializationError

end HeaderBlock

/-- A single header element, opaque or parsed.  SRC: src/lib.rs:95-100 -/
inductive Header (P : Primitives R)
  | raw (v : Bytes)
  | parsed (block : HeaderBlock P)

namespace Header

variable {P : Primitives R}

/-- A parsed block with this tag and these data.  SRC: src/lib.rs:103-105 -/
def structured (tag : P.Tag) (data : Bytes) : Header P := .parsed ⟨tag, data⟩

/-- The block in its byte form.  Serializing a block into a vector does not fail.
SRC: src/lib.rs:108-113 -/
def intoBytes : Header P → Bytes
  | .raw v => v
  | .parsed block => block.pack

/-- The block in its parsed form.  SRC: src/lib.rs:116-122 -/
def intoParsed : Header P → Exec (HeaderBlock P)
  | .raw v => HeaderBlock.unpack v
  | .parsed p => HeaderBlock.unpack p.pack

/-- `PartialEq` compares the byte forms.  SRC: src/lib.rs:164-168 -/
instance : BEq (Header P) where
  beq h h' := h.intoBytes == h'.intoBytes

/-- A raw block is its bytes. -/
@[simp] theorem intoBytes_raw (v : Bytes) : (Header.raw v : Header P).intoBytes = v := rfl

/-- A block is parsed from its bytes, whether it is opaque or not. -/
theorem intoParsed_eq (h : Header P) : h.intoParsed = HeaderBlock.unpack h.intoBytes := by
  cases h <;> rfl

end Header

/-! ## Onions -/

/-- What travels backward beside the header: a ciphertext and a tag. -/
abbrev Backward (P : Primitives R) := Bytes × P.Tag

/-- An assembled onion.  SRC: src/lib.rs:174-181 -/
structure Onion (P : Primitives R) where
  header : List (Header P)
  forward : Bytes
  backward : Backward P

/-- The byte forms of a list of blocks. -/
def headerBytes {P : Primitives R} (header : List (Header P)) : List Bytes :=
  header.map Header.intoBytes

namespace Onion

variable {P : Primitives R}

/-- The tuple that an onion is serialized as.  SRC: src/lib.rs:200, 210 -/
def codec (P : Primitives R) : Codec (List Bytes × Bytes × Backward P) :=
  Codec.bytes.list.pair (Codec.bytes.pair (Codec.bytes.pair P.tagCodec))

/-- The bytes of an onion, with its blocks in their byte form.  SRC: src/lib.rs:189-202 -/
def serialize (o : Onion P) : Bytes :=
  (codec P).encode (headerBytes o.header, o.forward, o.backward)

/-- The onion that bytes are read as, with raw blocks.  SRC: src/lib.rs:204-218 -/
def deserialize (bs : Bytes) : Exec (Onion P) := do
  let (packedHeaders, forward, backward) ← orErr ((codec P).deserialize bs) .serializationError
  return ⟨packedHeaders.map .raw, forward, backward⟩

/-- `PartialEq` compares the byte forms of the blocks, and the sections.  SRC: src/lib.rs:220-224 -/
instance : BEq (Onion P) where
  beq o o' := o.header == o'.header && o.forward == o'.forward && o.backward == o'.backward

/-- All header blocks as a single stream of bytes.  SRC: src/lib.rs:230-236 -/
def packedHeader (o : Onion P) : Bytes := o.header.flatMap Header.intoBytes

end Onion

/-- An element of what is called `dbinfo` in the pseudocode.  SRC: src/lib.rs:243-253 -/
structure ExpectedResponse (P : Primitives R) where
  identifier : Bytes
  onion : Onion P
  tag : P.Tag

/-! ## The format -/

/-- A key store.  SRC: src/pki.rs:15-17 -/
structure Pki (P : Primitives R) where
  keys : Address → Option P.PublicKey

/-- The key at an address, if there is one.  SRC: src/pki.rs:49-51 -/
def Pki.get {P : Primitives R} (pki : Pki P) (address : Address) : Option P.PublicKey :=
  pki.keys address

/-- The parametrization of the scheme.  SRC: src/lib.rs:263-270 -/
structure OnionFormat (P : Primitives R) where
  maxPathLength : UInt32
  pki : Pki P

/-- What an onion is assembled for: a message, or the way back.  SRC: src/lib.rs:285-290 -/
inductive Payload
  | forward (data : Bytes)
  | backward (data : Bytes)

/-- An onion as it comes out of `procOnion`.  SRC: src/lib.rs:751-772 -/
inductive ProcessedOnion (P : Primitives R)
  | hop (nextAddress : Address) (nextOnion : Onion P)
  | receiver (payload : Bytes)
  | sender (payload : Bytes)

namespace OnionFormat

variable {P : Primitives R}

/-- `self.max_path_length as usize` -/
def pathLimit (F : OnionFormat P) : ℕ := F.maxPathLength.toNat

/-- The length of a packed block, counted by hand: a tag, a key, an address, a role, a point and
two lengths.  SRC: src/lib.rs:304-312 -/
def singleHeaderLength (_ : OnionFormat P) : ℕ :=
  16 + P.symmetricKeyLength + addressLength + 4 + 32 + 8 + 8

/-- The length of a packed header of `max_path_length` blocks.  SRC: src/lib.rs:314-316 -/
def totalHeaderLength (F : OnionFormat P) : ℕ := 8 + F.pathLimit * (8 + F.singleHeaderLength)

/-- A block of zeroes.  SRC: src/lib.rs:318-320 -/
def zeroHeader (F : OnionFormat P) : Header P := .raw (List.replicate F.singleHeaderLength 0)

end OnionFormat

end Eror.Model
