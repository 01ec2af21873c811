import Eror.Library.Codec
import Eror.Model.Fault

/-!
# The cryptographic primitives the format is generic over

`Primitives R` is the trait of src/primitives.rs for a randomness source `R`: its
associated types, constant and methods.  What the trait's bounds and signatures promise is
carried as fields: tags can be compared, tags and keys serialize and deserialize
(`RequiredTraits`), and a method that works in place on a `&mut [u8]` keeps the length.

Every method of the trait is handed a randomness source.  Those that draw from it in
`EcPrimitives` return the source they leave behind; the others are functions of their other
arguments.
-/

set_option autoImplicit false

namespace Eror.Model

open Library

/-- A source of random bytes. -/
class Rng (R : Type) where
  /-- `rng.gen()` at `u8`. -/
  gen : R → UInt8 × R

/-- `(0..n).map(|_| rng.gen()).collect()` -/
def genBytes {R : Type} [Rng R] : ℕ → R → Bytes × R
  | 0, rng => ([], rng)
  | n + 1, rng =>
      let (b, rng) := Rng.gen rng
      let (bs, rng) := genBytes n rng
      (b :: bs, rng)

/-- As many bytes are drawn as are asked for. -/
@[simp] theorem genBytes_length {R : Type} [Rng R] (n : ℕ) (rng : R) :
    (genBytes n rng).1.length = n := by
  induction n generalizing rng with
  | zero => rfl
  | succ n ih => simp [genBytes, ih]

/-- Role that a key will take, to derive several keys from one shared secret.
SRC: src/primitives.rs:20-45 -/
inductive KeyRole
  | symEnc
  | mac
  | authEnc
  | end2End
  | prng
  | forward (i : UInt32)
  | backward (i : UInt32)
  | uhf
  deriving DecidableEq, Repr

/-- The chosen cryptographic primitives and their parameters.
SRC: src/primitives.rs:82-162 -/
structure Primitives (R : Type) where
  Tag : Type
  PublicKey : Type
  PrivateKey : Type
  SymmetricKey : Type
  [tagDecidableEq : DecidableEq Tag]
  /-- `Default::default()` of a tag. -/
  defaultTag : Tag
  tagCodec : Codec Tag
  keyCodec : Codec SymmetricKey
  symmetricKeyLength : ℕ
  randomKey : R → SymmetricKey × R
  randomTag : R → Tag × R
  tag : SymmetricKey → Bytes → Tag
  xorTag : Tag → Tag → Tag
  asymmetricEncrypt : R → PublicKey → Bytes → Bytes × R
  /-- The implementation for curve points slices its input at fixed offsets, so a panic is
  among the outcomes. -/
  asymmetricDecrypt : PrivateKey → Bytes → Exec Bytes
  deriveKey : KeyRole → SymmetricKey → SymmetricKey
  symmetricEncrypt : SymmetricKey → UInt32 → Bytes → Bytes
  symmetricDecrypt : SymmetricKey → UInt32 → Bytes → Bytes
  prng : SymmetricKey → Bytes → Bytes
  symmetricEncrypt_length : ∀ k n d, (symmetricEncrypt k n d).length = d.length
  symmetricDecrypt_length : ∀ k n d, (symmetricDecrypt k n d).length = d.length
  prng_length : ∀ k d, (prng k d).length = d.length

namespace Primitives

variable {R : Type} (P : Primitives R)

/-- Tags can be compared. -/
instance : DecidableEq P.Tag := P.tagDecidableEq

attribute [simp] symmetricEncrypt_length symmetricDecrypt_length prng_length

end Primitives

end Eror.Model
