import Mathlib.Algebra.Field.Defs
import Eror.Model.Primitives

/-!
# The primitives against non-quantum attackers

`EcPrimitives` of src/primitives.rs, over the crates it calls.  `EcCrates R` is what it uses of
them: the scalars, points and point encoding of curve25519-dalek, AEZ, the two hash functions,
HMAC and ChaCha20.  Where the code hands a crate a buffer of a given length, the length of the
result is a field.

AEZ is called without authentication bytes, and then decryption always succeeds.  The code
relies on it in an `expect`, so it is a field too (`aezDecrypt_isSome`).
-/

set_option autoImplicit false

namespace Eror.Model

open Library

/-- `&data[..n]` -/
def sliceTo (data : Bytes) (n : ℕ) : Exec Bytes :=
  if n ≤ data.length then .ok (data.take n) else .error .panic

/-- `&data[n..]` -/
def sliceFrom (data : Bytes) (n : ℕ) : Exec Bytes :=
  if n ≤ data.length then .ok (data.drop n) else .error .panic

/-- `x[..n].try_into().unwrap()` and `result.copy_from_slice(&x[..n])`, of an array that is long
enough. -/
def truncate {m : ℕ} (n : ℕ) (h : n ≤ m) (v : List.Vector UInt8 m) : List.Vector UInt8 n :=
  ⟨v.toList.take n, by rw [List.length_take, v.toList_length, Nat.min_eq_left h]⟩

/-- Converts the role to something that can be put into a hash function.
SRC: src/primitives.rs:48-72 -/
def KeyRole.discriminant : KeyRole → Bytes
  | .symEnc => [1, 0, 0, 0, 0]
  | .mac => [2, 0, 0, 0, 0]
  | .authEnc => [3, 0, 0, 0, 0]
  | .end2End => [4, 0, 0, 0, 0]
  | .prng => [5, 0, 0, 0, 0]
  | .forward i => 6 :: toLE 4 i.toNat
  | .backward i => 7 :: toLE 4 i.toNat
  | .uhf => [8, 0, 0, 0, 0]

/-- The parts of the crates that `EcPrimitives` uses.  SRC: src/primitives.rs:10-15 -/
structure EcCrates (R : Type) where
  Scalar : Type
  [field : Field Scalar]
  Point : Type
  /-- `ED25519_BASEPOINT_TABLE` -/
  base : Point
  add : Point → Point → Point
  mul : Point → Scalar → Point
  /-- The 32 bytes a point is compressed and serialized to. -/
  compress : Point → List.Vector UInt8 32
  /-- The point that 32 bytes stand for, if any. -/
  decompress : List.Vector UInt8 32 → Option Point
  /-- `Scalar::random` -/
  randomScalar : R → Scalar × R
  /-- `Scalar::hash_from_bytes::<Sha3_512>` -/
  hashFromBytes : Bytes → Scalar
  sha3_256 : Bytes → List.Vector UInt8 32
  hmacSha3_256 : Bytes → Bytes → List.Vector UInt8 32
  /-- `Aez::encrypt` under a key, with an IV and without associated data. -/
  aezEncrypt : List.Vector UInt8 16 → List.Vector UInt8 16 → Bytes → Bytes
  /-- `Aez::decrypt`, which may find the ciphertext inauthentic. -/
  aezDecrypt : List.Vector UInt8 16 → List.Vector UInt8 16 → Bytes → Option Bytes
  /-- `fill_bytes` of a generator with the given seed, on a buffer of the given length. -/
  chacha20 : List.Vector UInt8 32 → ℕ → Bytes
  aezEncrypt_length : ∀ k iv d, (aezEncrypt k iv d).length = d.length
  aezDecrypt_length : ∀ k iv d p, aezDecrypt k iv d = some p → p.length = d.length
  aezDecrypt_isSome : ∀ k iv d, (aezDecrypt k iv d).isSome
  chacha20_length : ∀ seed n, (chacha20 seed n).length = n

namespace EcCrates

variable {R : Type} (C : EcCrates R)

/-- The scalars are a field. -/
instance : Field C.Scalar := C.field

/-- The key that a point stands for: half of its hash.  SRC: src/primitives.rs:329-335 -/
def hashEdwards (point : C.Point) : List.Vector UInt8 16 :=
  truncate 16 (by decide) (C.sha3_256 (C.compress point).toList)

/-- The scalar that bytes hash to.  SRC: src/primitives.rs:337-339 -/
def hashToScalar (data : Bytes) : C.Scalar := C.hashFromBytes data

/-- The IV of a nonce: half of its hash.  SRC: src/primitives.rs:287-290, 309-312 -/
def iv (nonce : UInt32) : List.Vector UInt8 16 :=
  truncate 16 (by decide) (C.sha3_256 (toLE 4 nonce.toNat))

/-- AEZ without authentication; empty data stay empty.  SRC: src/primitives.rs:274-295 -/
def symmetricEncrypt (key : List.Vector UInt8 16) (nonce : UInt32) (data : Bytes) : Bytes :=
  if data.isEmpty then data
  else C.aezEncrypt key (C.iv nonce) data

/-- AEZ decryption, whose result is unwrapped; empty data stay empty.
SRC: src/primitives.rs:297-319 -/
def symmetricDecrypt (key : List.Vector UInt8 16) (nonce : UInt32) (data : Bytes) : Exec Bytes :=
  if data.isEmpty then .ok data
  else orPanic (C.aezDecrypt key (C.iv nonce) data)

/-- `asymmetric_encrypt` with the ephemeral scalar `r`.  A point serializes to its compressed
form.  SRC: src/primitives.rs:231-235 -/
def asymmetricEncryptWith (r : C.Scalar) (key : C.Point) (data : Bytes) : Bytes :=
  let symmetricKey := C.hashEdwards (C.mul C.base r)
  let data := C.symmetricEncrypt symmetricKey 0 data
  let u := C.mul (C.add (C.mul C.base (C.hashToScalar data)) key) r
  (C.compress u).toList ++ Codec.bytes.encode data

/-- Encryption for a public key, with an ephemeral scalar that is drawn.
SRC: src/primitives.rs:224-236 -/
def asymmetricEncrypt (rng : R) (key : C.Point) (data : Bytes) : Bytes × R :=
  let (r, rng) := C.randomScalar rng
  (C.asymmetricEncryptWith r key data, rng)

/-- `bincode::deserialize::<(EdwardsPoint, Vec<u8>)>`: 32 bytes that stand for a point, and a byte
string behind its length.  What follows it is ignored.  SRC: src/primitives.rs:246 -/
def deserializeSealed (data : Bytes) : Option (C.Point × Bytes) := do
  let (point, rest) ← (Codec.array 32).decode data
  let u ← C.decompress point
  let payload ← Codec.bytes.deserialize rest
  return (u, payload)

/-- Decryption with a private key.  What cannot be read is decrypted all the same, with a key from
its first 32 bytes.  SRC: src/primitives.rs:238-258 -/
def asymmetricDecrypt (key : C.Scalar) (data : Bytes) : Exec Bytes :=
  match C.deserializeSealed data with
  | some (u, payload) =>
      let point := C.mul u (C.hashToScalar payload + key)⁻¹
      let symmetricKey := C.hashEdwards point
      C.symmetricDecrypt symmetricKey 0 payload
  | none => do
      let pointBytes ← sliceTo data 32
      let dataBytes ← sliceFrom data 40
      let hash := C.sha3_256 pointBytes
      C.symmetricDecrypt (truncate 16 (by decide) hash) 0 dataBytes

/-- The key for a role: half of the hash of its discriminant and the key.
SRC: src/primitives.rs:260-272 -/
def deriveKey (role : KeyRole) (key : List.Vector UInt8 16) : List.Vector UInt8 16 :=
  truncate 16 (by decide) (C.sha3_256 (role.discriminant ++ key.toList))

/-- The tag of data: half of their HMAC.  SRC: src/primitives.rs:208-212 -/
def tag (key : List.Vector UInt8 16) (data : Bytes) : List.Vector UInt8 16 :=
  truncate 16 (by decide) (C.hmacSha3_256 key.toList data)

/-- The seed is the key and sixteen zero bytes.  SRC: src/primitives.rs:321-326 -/
def prng (seed : List.Vector UInt8 16) (output : Bytes) : Bytes :=
  C.chacha20 ⟨seed.toList ++ List.replicate 16 0, by simp⟩ output.length

/-- A private key that is drawn, and the public key that belongs to it.
SRC: src/primitives.rs:178-188 -/
def generateKeypair (rng : R) : (C.Scalar × C.Point) × R :=
  let (privateKey, rng) := C.randomScalar rng
  ((privateKey, C.mul C.base privateKey), rng)

/-! ## The instance of the trait -/

/-- Symmetric encryption keeps the length. -/
theorem symmetricEncrypt_length (key : List.Vector UInt8 16) (nonce : UInt32) (data : Bytes) :
    (C.symmetricEncrypt key nonce data).length = data.length := by
  unfold symmetricEncrypt
  split
  · rfl
  · exact C.aezEncrypt_length ..

/-- **Symmetric decryption does not fail**, and keeps the length.  SRC: src/primitives.rs:315-317 -/
theorem symmetricDecrypt_ok (key : List.Vector UInt8 16) (nonce : UInt32) (data : Bytes) :
    ∃ plain, C.symmetricDecrypt key nonce data = .ok plain ∧ plain.length = data.length := by
  unfold symmetricDecrypt
  split
  · exact ⟨data, rfl, rfl⟩
  · obtain ⟨plain, hplain⟩ := Option.isSome_iff_exists.mp
      (C.aezDecrypt_isSome key (C.iv nonce) data)
    exact ⟨plain, orPanic_eq_ok.mpr hplain, C.aezDecrypt_length _ _ _ _ hplain⟩

/-- The buffer that `symmetric_decrypt` leaves behind. -/
def symmetricDecrypted (key : List.Vector UInt8 16) (nonce : UInt32) (data : Bytes) : Bytes :=
  match C.symmetricDecrypt key nonce data with
  | .ok plain => plain
  | .error _ => data

/-- The call returns the buffer that it leaves behind. -/
theorem symmetricDecrypt_eq (key : List.Vector UInt8 16) (nonce : UInt32) (data : Bytes) :
    C.symmetricDecrypt key nonce data = .ok (C.symmetricDecrypted key nonce data) := by
  obtain ⟨plain, hplain, -⟩ := C.symmetricDecrypt_ok key nonce data
  rw [symmetricDecrypted, hplain]

/-- Symmetric decryption keeps the length. -/
theorem symmetricDecrypted_length (key : List.Vector UInt8 16) (nonce : UInt32) (data : Bytes) :
    (C.symmetricDecrypted key nonce data).length = data.length := by
  obtain ⟨plain, hplain, hlen⟩ := C.symmetricDecrypt_ok key nonce data
  rw [symmetricDecrypted, hplain]
  exact hlen

/-- `rng.gen()` at an array of bytes. -/
def genArray [Rng R] (n : ℕ) (rng : R) : List.Vector UInt8 n × R :=
  (⟨(genBytes n rng).1, genBytes_length n rng⟩, (genBytes n rng).2)

/-- The instance of the trait over elliptic curves.  SRC: src/primitives.rs:191-327 -/
def ecPrimitives [Rng R] : Primitives R where
  Tag := List.Vector UInt8 16
  PublicKey := C.Point
  PrivateKey := C.Scalar
  SymmetricKey := List.Vector UInt8 16
  defaultTag := List.Vector.replicate 16 0
  tagCodec := Codec.array 16
  keyCodec := Codec.array 16
  symmetricKeyLength := 16
  randomKey := genArray 16
  randomTag := genArray 16
  tag := C.tag
  xorTag a b := List.Vector.map₂ (· ^^^ ·) a b
  asymmetricEncrypt := C.asymmetricEncrypt
  asymmetricDecrypt := C.asymmetricDecrypt
  deriveKey := C.deriveKey
  symmetricEncrypt := C.symmetricEncrypt
  symmetricDecrypt := C.symmetricDecrypted
  prng := C.prng
  symmetricEncrypt_length := C.symmetricEncrypt_length
  symmetricDecrypt_length := C.symmetricDecrypted_length
  prng_length _ _ := C.chacha20_length _ _

end EcCrates

end Eror.Model
