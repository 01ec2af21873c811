import Mathlib
import Eror.Model.EcPrimitives

/-!
# What is assumed of the crates

Of curve25519-dalek: the scalars act on the multiples of the base point as a field does on
itself, and the encoding of such a point is read back.  Of AEZ: encryption and decryption are
inverse to each other.  The hash functions, HMAC and ChaCha20 may be anything.

`sampleCrates` satisfies this with a group of seven points.
-/

set_option autoImplicit false

namespace Eror.Model

open Library

namespace EcCrates

variable {R : Type}

/-- What the proofs use of the crates: multiples of the base point add and multiply as their
scalars do and are read back when they are compressed, and AEZ decryption is inverse to
encryption. -/
structure Lawful (C : EcCrates R) : Prop where
  add_mul_base : ∀ a b, C.add (C.mul C.base a) (C.mul C.base b) = C.mul C.base (a + b)
  mul_mul_base : ∀ a b, C.mul (C.mul C.base a) b = C.mul C.base (a * b)
  decompress_compress : ∀ a, C.decompress (C.compress (C.mul C.base a)) = some (C.mul C.base a)
  aezDecrypt_aezEncrypt : ∀ k iv d, C.aezDecrypt k iv (C.aezEncrypt k iv d) = some d
  aezEncrypt_aezDecrypt : ∀ k iv d p, C.aezDecrypt k iv d = some p → C.aezEncrypt k iv p = d

end EcCrates

/-- The scalars of the sample form a field. -/
instance fact_prime_seven : Fact (Nat.Prime 7) := ⟨by norm_num⟩

/-- A point as a number of 32 bytes. -/
@[irreducible] def sampleCompress (p : ZMod 7) : List.Vector UInt8 32 :=
  ⟨toLE 32 p.val, toLE_length _ _⟩

/-- The point that is read, if it is one of the seven. -/
@[irreducible] def sampleDecompress (bs : List.Vector UInt8 32) : Option (ZMod 7) :=
  if ofLE bs.toList < 7 then some (ofLE bs.toList : ZMod 7) else none

/-- A compressed point is read back. -/
theorem sampleDecompress_sampleCompress (a : ZMod 7) :
    sampleDecompress (sampleCompress a) = some a := by
  have hlt : a.val < 7 := ZMod.val_lt a
  have hread : ofLE (sampleCompress a).toList = a.val := by
    rw [sampleCompress]
    change ofLE (toLE 32 a.val) = a.val
    rw [ofLE_toLE]
    apply Nat.mod_eq_of_lt
    omega
  rw [sampleDecompress, hread, if_pos hlt, ZMod.natCast_zmod_val]

/-- Crates that evaluate: the integers modulo seven as points and scalars, and a byte shift for
AEZ. -/
def sampleCrates : EcCrates ℕ where
  Scalar := ZMod 7
  Point := ZMod 7
  base := 1
  add a b := a + b
  mul p a := p * a
  compress := sampleCompress
  decompress := sampleDecompress
  randomScalar rng := (rng, rng + 1)
  hashFromBytes d := d.length
  sha3_256 d := List.Vector.replicate 32 d.sum
  hmacSha3_256 k d := List.Vector.replicate 32 (k.sum + d.sum)
  aezEncrypt k iv d := d.map (· + k.head + iv.head)
  aezDecrypt k iv d := some (d.map (· - iv.head - k.head))
  chacha20 seed n := List.replicate n seed.head
  aezEncrypt_length _ _ _ := List.length_map _
  aezDecrypt_length k iv d p h := by
    cases h
    exact List.length_map _
  aezDecrypt_isSome _ _ _ := rfl
  chacha20_length _ n := List.length_replicate

/-- The sample hashes bytes to their length. -/
theorem sampleCrates_hashToScalar (d : Bytes) :
    sampleCrates.hashToScalar d = (d.length : ZMod 7) := rfl

/-- The sample cipher decrypts what it encrypted. -/
theorem sample_shift (x y : UInt8) (d : Bytes) : (d.map (· + x + y)).map (· - y - x) = d := by
  simp [Function.comp_def]

/-- It encrypts what it decrypted. -/
theorem sample_unshift (x y : UInt8) (d : Bytes) : (d.map (· - y - x)).map (· + x + y) = d := by
  simp [Function.comp_def]

/-- The points of the sample are read back. -/
theorem sampleCrates_decompress_compress (p : sampleCrates.Point) :
    sampleCrates.decompress (sampleCrates.compress p) = some p :=
  sampleDecompress_sampleCompress p

/-- The sample has the properties assumed of the crates. -/
theorem sampleCrates_lawful : sampleCrates.Lawful where
  add_mul_base := fun (a b : ZMod 7) => (mul_add 1 a b).symm
  mul_mul_base := fun (a b : ZMod 7) => mul_assoc 1 a b
  decompress_compress _ := sampleCrates_decompress_compress _
  aezDecrypt_aezEncrypt k iv d := congrArg some (sample_shift k.head iv.head d)
  aezEncrypt_aezDecrypt k iv d _ h := by
    cases h
    exact sample_unshift k.head iv.head d

end Eror.Model
