import Eror.Model.Primitives

/-!
# The Sphinx crate: errors, keys and what it uses of its own dependencies

sphinx/ is the mix format that the benches of benches/onions.rs compare against.  This module has
its constants, its errors, and sphinx/src/crypto/ and sphinx/src/header/keys.rs.

`Crates` is what is used of curve25519-dalek, AES in counter mode, HKDF, HMAC and Lioness.  A
point of the curve is its 32 bytes throughout.  Where a subtraction of lengths is below zero, a
build with overflow checks panics, and one without panics soon afterwards, in an allocation or a
slice of nearly 2^64 bytes; `sub` panics at once.
-/

set_option autoImplicit false

namespace Eror.Model.Sphinx

open Library

/-- `[u8; n]` -/
abbrev Arr (n : ℕ) := List.Vector UInt8 n

/-- The array of these bytes. -/
def Arr.of {n : ℕ} (bytes : Bytes) (h : bytes.length = n) : Arr n := ⟨bytes, h⟩

/-- Its bytes are those that it was made of. -/
@[simp] theorem Arr.toList_of {n : ℕ} (bytes : Bytes) (h : bytes.length = n) :
    (Arr.of bytes h).toList = bytes := rfl

/-! ## Constants -/

section Constants

/-- The security parameter in bytes.  SRC: sphinx/src/constants.rs:19 -/
def securityParameter : ℕ := 16

/-- The most hops that a route can have.  SRC: sphinx/src/constants.rs:20 -/
def maxPathLength : ℕ := 5

/-- The length of a blinding factor. -/
def blindingFactorSize : ℕ := 2 * securityParameter

/-- The length of a key of the stream cipher, and of its IV. -/
def streamCipherKeySize : ℕ := 16

/-- The length of a key of the header's MAC. -/
def integrityMacKeySize : ℕ := securityParameter

/-- The length of the header's MAC. -/
def headerIntegrityMacSize : ℕ := securityParameter

/-- The length of a payload key. -/
def payloadKeySize : ℕ := 192

/-- The length of all that is derived for a hop. -/
def routingKeysLength : ℕ :=
  streamCipherKeySize + integrityMacKeySize + payloadKeySize + blindingFactorSize

/-- The length of a destination. -/
def destinationAddressLength : ℕ := 2 * securityParameter

/-- The length of the address of a node. -/
def nodeAddressLength : ℕ := 2 * securityParameter

/-- The length of an identifier. -/
def identifierLength : ℕ := securityParameter

/-- The length of a delay. -/
def delayLength : ℕ := 8

/-- The length of the flag. -/
def flagLength : ℕ := 1

/-- The length of the version. -/
def versionLength : ℕ := 3

/-- What a forward hop learns beside the next hop's MAC and routing information.
SRC: sphinx/src/constants.rs:36-37 -/
def nodeMetaInfoSize : ℕ := nodeAddressLength + flagLength + delayLength + versionLength

/-- What the last hop learns.  SRC: sphinx/src/constants.rs:38-39 -/
def finalNodeMetaInfoLength : ℕ :=
  destinationAddressLength + identifierLength + flagLength + versionLength

/-- The length of a hop's keystream.  SRC: sphinx/src/constants.rs:27-28 -/
def streamCipherOutputLength : ℕ :=
  (nodeMetaInfoSize + headerIntegrityMacSize) * (maxPathLength + 1)

/-- By how much each hop makes the filler longer.  SRC: sphinx/src/header/filler.rs:20 -/
def fillerStepSizeIncrease : ℕ := nodeMetaInfoSize + headerIntegrityMacSize

/-- The length of the encrypted routing information.  SRC: sphinx/src/header/routing/mod.rs:27-28 -/
def encryptedRoutingInfoSize : ℕ :=
  (nodeMetaInfoSize + headerIntegrityMacSize) * maxPathLength

/-- How much of the next hop's routing information a hop's own has room for.
SRC: sphinx/src/header/routing/mod.rs:25-26 -/
def truncatedRoutingInfoSize : ℕ :=
  encryptedRoutingInfoSize - (nodeMetaInfoSize + headerIntegrityMacSize)

/-- The length of a header.  SRC: sphinx/src/header/mod.rs:35 -/
def headerSize : ℕ := 32 + headerIntegrityMacSize + encryptedRoutingInfoSize

/-- The zeroes before a message and the one behind it.  SRC: sphinx/src/payload/mod.rs:25 -/
def payloadOverheadSize : ℕ := securityParameter + 1

/-- `lioness::DIGEST_RESULT_SIZE` -/
def lionessDigestResultSize : ℕ := 32

/-- The payload size that a builder starts with.  SRC: sphinx/src/packet/builder.rs:9 -/
def defaultPayloadSize : ℕ := 1024

/-- "Dwste mou enan moxlo ..." in ASCII.  SRC: sphinx/src/constants.rs:26 -/
def hkdfInputSeed : Bytes :=
  ("Dwste mou enan moxlo arketa makru kai ena upomoxlio gia na ton topothetisw " ++
    "kai tha kinisw thn gh.").toList.map fun c => UInt8.ofNat c.toNat

/-- The sizes in bytes. -/
theorem sizes : maxPathLength = 5 ∧ fillerStepSizeIncrease = 60 ∧ encryptedRoutingInfoSize = 300 ∧
    truncatedRoutingInfoSize = 240 ∧ streamCipherOutputLength = 360 ∧ headerSize = 348 ∧
    securityParameter = 16 ∧ headerIntegrityMacSize = 16 ∧ nodeMetaInfoSize = 44 ∧
    finalNodeMetaInfoLength = 52 ∧ payloadOverheadSize = 17 ∧ payloadKeySize = 192 ∧
    nodeAddressLength = 32 ∧ destinationAddressLength = 32 ∧ identifierLength = 16 ∧
    delayLength = 8 ∧ lionessDigestResultSize = 32 := by
  decide

end Constants

/-! ## What a call can end in -/

/-- The kinds of errors.  SRC: sphinx/src/error.rs:45-60 -/
inductive ErrorKind
  | invalidPacket
  | invalidHeader
  | invalidPayload
  | invalidSURB
  | invalidRouting
  deriving DecidableEq, Repr

/-- An error of the crate, with its text.  SRC: sphinx/src/error.rs:97-114 -/
structure Error where
  kind : ErrorKind
  text : String
  deriving DecidableEq, Repr

/-- A call that does not return a value returns an `Err` or panics. -/
inductive Fault
  | err (e : Error)
  | panic
  deriving DecidableEq, Repr

/-- What a call ends in. -/
abbrev Exec (α : Type) := Except Fault α

/-- `return Err(Error::new(kind, text))` -/
def fail {α : Type} (kind : ErrorKind) (text : String) : Exec α := .error (.err ⟨kind, text⟩)

/-- `assert!(c)` -/
def assert (c : Prop) [Decidable c] : Exec Unit := if c then .ok () else .error .panic

/-- `debug_assert!(c)` -/
def debugAssert (p : Profile) (c : Prop) [Decidable c] : Exec Unit :=
  match p with
  | .dev => assert c
  | .release => .ok ()

/-- `isize::MAX`, the most bytes that a vector can have. -/
def isizeMax : ℕ := 2 ^ 63 - 1

/-- `Vec::with_capacity(n)` of bytes, which `collect()` asks for when it knows how many will
come. -/
def withCapacity (n : ℕ) : Exec Unit := assert (n ≤ isizeMax)

/-- `a - b` on lengths. -/
def sub (a b : ℕ) : Exec ℕ := if b ≤ a then .ok (a - b) else .error .panic

/-- `&bytes[..n]` -/
def sliceTo {α : Type} (bytes : List α) (n : ℕ) : Exec (List α) :=
  if n ≤ bytes.length then .ok (bytes.take n) else .error .panic

/-- `&bytes[n..]` -/
def sliceFrom {α : Type} (bytes : List α) (n : ℕ) : Exec (List α) :=
  if n ≤ bytes.length then .ok (bytes.drop n) else .error .panic

/-- `array.copy_from_slice(bytes)` into an array of `n` bytes. -/
def copyFromSlice (n : ℕ) (bytes : Bytes) : Exec (Arr n) :=
  if h : bytes.length = n then .ok (Arr.of bytes h) else .error .panic

/-- `array.copy_from_slice(&bytes[i..i + n])` into an array of `n` bytes, with `i + n` within the
bytes. -/
def Arr.slice {m : ℕ} (bytes : Arr m) (i n : ℕ) (h : i + n ≤ m) : Arr n :=
  Arr.of ((bytes.toList.drop i).take n) (by
    rw [List.length_take, List.length_drop, bytes.toList_length]
    omega)

/-- The bytes of one string combined with those of another of the same length.
SRC: sphinx/src/utils/bytes.rs:18-22 -/
def xor (a b : Bytes) : Exec Bytes := do
  assert (a.length = b.length)
  return List.zipWith (· ^^^ ·) a b

section Simp

variable {α β : Type}

/-- What has returned a value goes on with it. -/
@[simp] theorem ok_bind (a : α) (f : α → Exec β) : (Except.ok a >>= f) = f a := rfl

/-- What has ended in a fault does not go on. -/
@[simp] theorem error_bind (e : Fault) (f : α → Exec β) :
    ((Except.error e : Exec α) >>= f) = .error e := rfl

/-- A call returns a value when both of its parts do. -/
theorem bind_eq_ok {x : Exec α} {f : α → Exec β} {b : β} :
    (x >>= f) = .ok b ↔ ∃ a, x = .ok a ∧ f a = .ok b := by
  cases x with
  | error e => simp
  | ok a => simp

/-- A value is no fault. -/
@[simp] theorem ok_ne_error {a : α} {e : Fault} : (Except.ok a : Exec α) ≠ .error e := by
  intro h
  cases h

/-- An `Err` is no panic. -/
@[simp] theorem fail_ne_panic {kind : ErrorKind} {text : String} :
    (fail kind text : Exec α) ≠ .error .panic := by
  intro h
  cases h

/-- An assertion that holds does nothing. -/
theorem assert_of {c : Prop} [Decidable c] (h : c) : assert c = .ok () := if_pos h

/-- An assertion that fails is a panic. -/
theorem assert_of_not {c : Prop} [Decidable c] (h : ¬ c) : assert c = .error .panic := if_neg h

/-- A debug assertion that holds, or is not compiled in, does nothing. -/
theorem debugAssert_of {p : Profile} {c : Prop} [Decidable c] (h : p = .dev → c) :
    debugAssert p c = .ok () := by
  cases p with
  | dev => exact assert_of (h rfl)
  | release => rfl

/-- In the `dev` profile a debug assertion that fails is a panic. -/
theorem debugAssert_dev_of_not {c : Prop} [Decidable c] (h : ¬ c) :
    debugAssert .dev c = .error .panic := assert_of_not h

/-- Room for as many bytes as a vector can have is there. -/
theorem withCapacity_of_le {n : ℕ} (h : n ≤ isizeMax) : withCapacity n = .ok () := assert_of h

/-- Room for more is not. -/
theorem withCapacity_of_lt {n : ℕ} (h : isizeMax < n) : withCapacity n = .error .panic :=
  assert_of_not (Nat.not_le_of_lt h)

/-- A difference of lengths. -/
theorem sub_of_le {a b : ℕ} (h : b ≤ a) : sub a b = .ok (a - b) := if_pos h

/-- A difference below zero is a panic. -/
theorem sub_of_lt {a b : ℕ} (h : a < b) : sub a b = .error .panic := if_neg (by omega)

/-- A slice up to a place within the bytes. -/
theorem sliceTo_of_le {l : List α} {n : ℕ} (h : n ≤ l.length) : sliceTo l n = .ok (l.take n) :=
  if_pos h

/-- A slice from a place within the bytes. -/
theorem sliceFrom_of_le {l : List α} {n : ℕ} (h : n ≤ l.length) :
    sliceFrom l n = .ok (l.drop n) := if_pos h

/-- A slice of the right length is copied. -/
theorem copyFromSlice_of {n : ℕ} {bytes : Bytes} (h : bytes.length = n) :
    copyFromSlice n bytes = .ok (Arr.of bytes h) := dif_pos h

/-- Strings of the same length are combined. -/
theorem xor_of {a b : Bytes} (h : a.length = b.length) :
    xor a b = .ok (List.zipWith (· ^^^ ·) a b) := by
  rw [xor, assert_of h, ok_bind]
  rfl

/-- Combining with a byte twice changes nothing. -/
theorem byte_xor_cancel (a b : UInt8) : a ^^^ b ^^^ b = a := by
  rw [UInt8.xor_assoc, UInt8.xor_self, UInt8.xor_zero]

/-- What a slice of an array is, when the bytes around it are known. -/
theorem Arr.slice_of_append {m n : ℕ} {v : Arr m} {front back : Bytes} (part : Arr n)
    (hv : v.toList = front ++ (part.toList ++ back)) {i : ℕ} (hi : front.length = i)
    (h : i + n ≤ m) : v.slice i n h = part := by
  apply List.Vector.toList_injective
  change (v.toList.drop i).take n = part.toList
  rw [hv, List.drop_left' hi, List.take_left' part.toList_length]

end Simp

/-! ## Dependencies -/

/-- The parts of other crates that the Sphinx crate uses. -/
structure Crates where
  Scalar : Type
  [commSemigroup : CommSemigroup Scalar]
  /-- `Scalar::from_bits` -/
  fromBits : Arr 32 → Scalar
  /-- `Scalar::from_bytes_mod_order` -/
  fromBytesModOrder : Arr blindingFactorSize → Scalar
  /-- `(&ED25519_BASEPOINT_TABLE * &scalar).to_montgomery()` -/
  mulBase : Scalar → Arr 32
  /-- `scalar * montgomery_point` -/
  mul : Scalar → Arr 32 → Arr 32
  /-- The keystream of `Aes128Ctr` with a key and an IV. -/
  aes128Ctr : Arr streamCipherKeySize → Arr streamCipherKeySize → ℕ → Bytes
  /-- `Hkdf::<Sha256>::new(None, ikm).expand(info, ..)` into a buffer of the given length.  It
  fails for more than 255 digests, and is asked for eight. -/
  hkdfSha256 : Bytes → Bytes → ℕ → Bytes
  hmacSha256 : Bytes → Bytes → Arr 32
  /-- `Lioness::<VarBlake2b, ChaCha>::encrypt`, or what its error displays. -/
  lionessEncrypt : Arr payloadKeySize → Bytes → Except String Bytes
  lionessDecrypt : Arr payloadKeySize → Bytes → Except String Bytes
  aes128Ctr_length : ∀ key iv n, (aes128Ctr key iv n).length = n
  hkdfSha256_length : ∀ ikm info n, (hkdfSha256 ikm info n).length = n

/-- The scalars multiply in any order. -/
instance (C : Crates) : CommSemigroup C.Scalar := C.commSemigroup

variable (C : Crates)

/-- A keystream of the given length.  SRC: sphinx/src/crypto/mod.rs:32-47 -/
def generatePseudorandomBytes (key iv : Arr streamCipherKeySize) (length : ℕ) : Bytes :=
  C.aes128Ctr key iv length

/-- The IV is zero. -/
def streamCipherInitVector : Arr streamCipherKeySize := List.Vector.replicate _ 0

/-- The HMAC of data.  SRC: sphinx/src/crypto/mod.rs:50-60 -/
def computeKeyedHmac (key data : Bytes) : Arr 32 := C.hmacSha256 key data

/-! ## Keys of the curve -/

/-- The scalar of 32 bytes, whose lowest and highest bits are set as the curve wants them.
SRC: sphinx/src/crypto/keys.rs:35-41 -/
def clampScalarBytes (bytes : Arr 32) : C.Scalar :=
  let bytes := bytes.set 0 (bytes.get 0 &&& 248)
  let bytes := bytes.set 31 (bytes.get 31 &&& 127)
  let bytes := bytes.set 31 (bytes.get 31 ||| 64)
  C.fromBits bytes

/-- Also `EphemeralSecret`.  SRC: sphinx/src/crypto/keys.rs:45 -/
structure PrivateKey where
  scalar : C.Scalar

/-- Also `SharedSecret`: a point in its 32 bytes.  SRC: sphinx/src/crypto/keys.rs:52 -/
abbrev PublicKey := Arr 32

namespace PrivateKey

variable {C}

/-- The secret that the key shares with the holder of another one.
SRC: sphinx/src/crypto/keys.rs:60-62 -/
def diffieHellman (key : PrivateKey C) (remotePublicKey : PublicKey) : PublicKey :=
  C.mul key.scalar remotePublicKey

/-- The public key that belongs to the key.  SRC: sphinx/src/crypto/keys.rs:128-134 -/
def publicKey (key : PrivateKey C) : PublicKey := C.mulBase key.scalar

/-- The key is blinded.  SRC: sphinx/src/crypto/keys.rs:101-105 -/
def mulAssign (key : PrivateKey C) (scalar : C.Scalar) : PrivateKey C := ⟨key.scalar * scalar⟩

/-- A key that is drawn.  SRC: sphinx/src/crypto/keys.rs:76-80 -/
def new {R : Type} [Rng R] (rng : R) : PrivateKey C :=
  ⟨clampScalarBytes C (Arr.of (genBytes 32 rng).1 (genBytes_length 32 rng))⟩

end PrivateKey

/-- Where the last node sends a payload.  SRC: sphinx/src/route.rs:155-163 -/
structure Destination where
  address : Arr destinationAddressLength
  identifier : Arr identifierLength

/-- A node of a route.  SRC: sphinx/src/route.rs:174-178 -/
structure Node where
  address : Arr nodeAddressLength
  pubKey : PublicKey

/-! ## Keys of a hop -/

/-- The keys of a hop.  SRC: sphinx/src/header/keys.rs:36-42 -/
structure RoutingKeys where
  streamCipherKey : Arr streamCipherKeySize
  headerIntegrityHmacKey : Arr integrityMacKeySize
  payloadKey : Arr payloadKeySize
  blindingFactor : Arr blindingFactorSize

/-- The keys of a hop, side by side in what is expanded from the shared key.
SRC: sphinx/src/header/keys.rs:48-79 -/
def RoutingKeys.derive (sharedKey : PublicKey) : RoutingKeys :=
  let output : Arr routingKeysLength :=
    Arr.of (C.hkdfSha256 sharedKey.toList hkdfInputSeed routingKeysLength)
      (C.hkdfSha256_length _ _ _)
  { streamCipherKey := output.slice 0 streamCipherKeySize (by decide)
    headerIntegrityHmacKey := output.slice streamCipherKeySize integrityMacKeySize (by decide)
    payloadKey :=
      output.slice (streamCipherKeySize + integrityMacKeySize) payloadKeySize (by decide)
    blindingFactor :=
      output.slice (streamCipherKeySize + integrityMacKeySize + payloadKeySize) blindingFactorSize
        (by decide) }

/-- What the sender derives for a route.  SRC: sphinx/src/header/keys.rs:102-106 -/
structure KeyMaterial where
  initialSharedSecret : PublicKey
  routingKeys : List RoutingKeys

/-- One round of the loop over the route, at place `i` of `length`.
SRC: sphinx/src/header/keys.rs:115-142 -/
def KeyMaterial.deriveStep (length : ℕ) (s : PrivateKey C × List RoutingKeys)
    (hop : Node × ℕ) : PrivateKey C × List RoutingKeys :=
  let sharedKey := s.1.diffieHellman hop.1.pubKey
  let nodeRoutingKeys := RoutingKeys.derive C sharedKey
  let accumulator := if hop.2 ≠ length + 1 then
    s.1.mulAssign (C.fromBytesModOrder nodeRoutingKeys.blindingFactor) else s.1
  (accumulator, s.2 ++ [nodeRoutingKeys])

/-- The keys of all hops, in the order of the route.  SRC: sphinx/src/header/keys.rs:110-148 -/
def KeyMaterial.derive (route : List Node) (initialSecret : PrivateKey C) : KeyMaterial where
  initialSharedSecret := initialSecret.publicKey
  routingKeys := (route.zipIdx.foldl (KeyMaterial.deriveStep C route.length)
    (initialSecret, [])).2

end Eror.Model.Sphinx
