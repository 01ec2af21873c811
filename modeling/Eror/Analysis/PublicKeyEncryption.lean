import Eror.Interface.Assumptions
import Eror.Interface.CrateAssumptions

/-!
# Public-key encryption of `EcPrimitives`

The sender draws `r`, encrypts under a hash of `r * B` and sends `u = (h + sk) * r * B`, where
`h` hashes the symmetric ciphertext and `sk * B` is the public key.  The receiver multiplies `u`
by the inverse of `h + sk`, which exists unless `h` is the negative of the private key.

With this `EcPrimitives` is an instance of what `Interface.Assumptions` asks for.
-/

set_option autoImplicit false

namespace Eror.Analysis

open Library Model

variable {R : Type} {C : EcCrates R}

/-! ## The symmetric cipher -/

/-- INTERNAL: symmetric decryption undoes encryption, of the empty string too.
SRC: src/primitives.rs:274-319 -/
theorem symmetricDecrypt_symmetricEncrypt (hC : C.Lawful) (key : List.Vector UInt8 16)
    (nonce : UInt32) (data : Bytes) :
    C.symmetricDecrypt key nonce (C.symmetricEncrypt key nonce data) = .ok data := by
  by_cases hempty : data.isEmpty
  · rw [EcCrates.symmetricEncrypt, if_pos hempty, EcCrates.symmetricDecrypt, if_pos hempty]
  · have hcipher : ¬ (C.aezEncrypt key (C.iv nonce) data).isEmpty := by
      rw [List.isEmpty_iff_length_eq_zero] at hempty ⊢
      rwa [C.aezEncrypt_length]
    rw [EcCrates.symmetricEncrypt, if_neg hempty, EcCrates.symmetricDecrypt, if_neg hcipher,
      hC.aezDecrypt_aezEncrypt, orPanic_some]

/-- INTERNAL: what symmetric decryption leaves behind encrypts to its input.
SRC: src/primitives.rs:274-319 -/
theorem symmetricEncrypt_symmetricDecrypted (hC : C.Lawful) (key : List.Vector UInt8 16)
    (nonce : UInt32) (data : Bytes) :
    C.symmetricEncrypt key nonce (C.symmetricDecrypted key nonce data) = data := by
  have hok := C.symmetricDecrypt_eq key nonce data
  by_cases hempty : data.isEmpty
  · rw [EcCrates.symmetricDecrypt, if_pos hempty] at hok
    rw [← Except.ok.inj hok, EcCrates.symmetricEncrypt, if_pos hempty]
  · have hplain : ¬ (C.symmetricDecrypted key nonce data).isEmpty := by
      rw [List.isEmpty_iff_length_eq_zero] at hempty ⊢
      rwa [C.symmetricDecrypted_length]
    rw [EcCrates.symmetricDecrypt, if_neg hempty, orPanic_eq_ok] at hok
    rw [EcCrates.symmetricEncrypt, if_neg hplain, hC.aezEncrypt_aezDecrypt _ _ _ _ hok]

/-! ## The shared point -/

/-- INTERNAL: the point that is sent.  SRC: src/primitives.rs:234 -/
theorem sealed_point (hC : C.Lawful) (h sk r : C.Scalar) :
    C.mul (C.add (C.mul C.base h) (C.mul C.base sk)) r = C.mul C.base ((h + sk) * r) := by
  rw [hC.add_mul_base, hC.mul_mul_base]

/-- INTERNAL: the point the receiver computes from it.  SRC: src/primitives.rs:247 -/
theorem opened_point (hC : C.Lawful) {h sk : C.Scalar} (hne : h + sk ≠ 0) (r : C.Scalar) :
    C.mul (C.mul C.base ((h + sk) * r)) (h + sk)⁻¹ = C.mul C.base r := by
  have hscalar : (h + sk) * r * (h + sk)⁻¹ = r := by
    rw [mul_comm (h + sk) r, mul_assoc, mul_inv_cancel₀ hne, mul_one]
  rw [hC.mul_mul_base, hscalar]

/-- INTERNAL: a point and a byte string are read back.  SRC: src/primitives.rs:235, 246 -/
theorem deserializeSealed_append (hC : C.Lawful) (a : C.Scalar) (payload : Bytes)
    (hlen : payload.length < 2 ^ 64) :
    C.deserializeSealed ((C.compress (C.mul C.base a)).toList ++ Codec.bytes.encode payload) =
      some (C.mul C.base a, payload) := by
  have hpoint := (Codec.array 32).decode_encode (C.compress (C.mul C.base a))
    (Codec.bytes.encode payload) trivial
  have hpayload := Codec.bytes.deserialize_encode payload ((Codec.bytes_fits _).mpr hlen)
  rw [Codec.array_encode] at hpoint
  rw [EcCrates.deserializeSealed, hpoint]
  simp only [Option.bind_eq_bind, Option.bind_some, Option.pure_def]
  rw [hC.decompress_compress, Option.bind_some, hpayload, Option.bind_some]

/-- The scalar that the holder of a private key would have to invert is zero: what is sealed hashes
to the negative of the key.  SRC: src/primitives.rs:246-247 -/
def Degenerate (sk : C.Scalar) (data : Bytes) : Prop :=
  ∃ u payload, C.deserializeSealed data = some (u, payload) ∧ C.hashToScalar payload + sk = 0

/-! ## Decryption undoes encryption -/

/-- The overhead is a compressed point and a length.  SRC: src/primitives.rs:231-235 -/
theorem asymmetricEncryptWith_length (r : C.Scalar) (key : C.Point) (data : Bytes) :
    (C.asymmetricEncryptWith r key data).length = data.length + 40 := by
  simp only [EcCrates.asymmetricEncryptWith, Codec.bytes_encode, List.length_append,
    List.Vector.toList_length, toLE_length, EcCrates.symmetricEncrypt_length]
  omega

/-- INTERNAL: what is sealed is read back.  SRC: src/primitives.rs:231-235, 246 -/
theorem deserializeSealed_encryptWith (hC : C.Lawful) (sk r : C.Scalar) {message : Bytes}
    (hlen : message.length < 2 ^ 64) :
    C.deserializeSealed (C.asymmetricEncryptWith r (C.mul C.base sk) message) =
      some (C.mul C.base ((C.hashToScalar (C.symmetricEncrypt (C.hashEdwards (C.mul C.base r)) 0
        message) + sk) * r), C.symmetricEncrypt (C.hashEdwards (C.mul C.base r)) 0 message) := by
  have hcipher : (C.symmetricEncrypt (C.hashEdwards (C.mul C.base r)) 0 message).length <
      2 ^ 64 := by
    rwa [C.symmetricEncrypt_length]
  rw [EcCrates.asymmetricEncryptWith, sealed_point hC]
  exact deserializeSealed_append hC _ _ hcipher

/-- INTERNAL: decryption undoes encryption when the scalar to invert is not zero.
SRC: src/primitives.rs:231-250 -/
theorem asymmetricDecrypt_encryptWith (hC : C.Lawful) {sk r : C.Scalar} {message : Bytes}
    (hlen : message.length < 2 ^ 64)
    (hne : C.hashToScalar (C.symmetricEncrypt (C.hashEdwards (C.mul C.base r)) 0 message) + sk ≠
      0) :
    C.asymmetricDecrypt sk (C.asymmetricEncryptWith r (C.mul C.base sk) message) =
      .ok message := by
  rw [EcCrates.asymmetricDecrypt, deserializeSealed_encryptWith hC sk r hlen]
  dsimp only
  rw [opened_point hC hne, symmetricDecrypt_symmetricEncrypt hC]

/-- **Public-key decryption undoes encryption**, for each ephemeral scalar `r`, unless the hash
of the symmetric ciphertext is the negative of the private key; and a ciphertext is 40 bytes
longer than its message.  `asymmetric_encrypt` draws `r`.  The length of a message fits into 64
bits, as that of every vector does.  SRC: src/primitives.rs:224-258 -/
theorem asymmetricDecrypt_asymmetricEncrypt (hC : C.Lawful) (sk r : C.Scalar) (message : Bytes)
    (hlen : message.length < 2 ^ 64) :
    (C.hashToScalar (C.symmetricEncrypt (C.hashEdwards (C.mul C.base r)) 0 message) + sk ≠ 0 →
      C.asymmetricDecrypt sk (C.asymmetricEncryptWith r (C.mul C.base sk) message) =
        .ok message) ∧
    (C.asymmetricEncryptWith r (C.mul C.base sk) message).length = message.length + 40 ∧
    ∀ rng, (C.randomScalar rng).1 = r →
      (C.asymmetricEncrypt rng (C.mul C.base sk) message).1 =
        C.asymmetricEncryptWith r (C.mul C.base sk) message := by
  refine ⟨asymmetricDecrypt_encryptWith hC hlen, asymmetricEncryptWith_length r _ message, ?_⟩
  intro rng hdraw
  rw [← hdraw]
  rfl

/-- With seven points, the private key two and the ephemeral scalar zero, a message of one byte
is recovered. -/
theorem asymmetricDecrypt_asymmetricEncrypt_sample :
    sampleCrates.asymmetricDecrypt (2 : ZMod 7)
      (sampleCrates.asymmetricEncryptWith (0 : ZMod 7)
        (sampleCrates.mul sampleCrates.base (2 : ZMod 7)) [5]) = .ok [5] :=
  (asymmetricDecrypt_asymmetricEncrypt sampleCrates_lawful (2 : ZMod 7) (0 : ZMod 7) [5]
    (by decide)).1 (by
      rw [sampleCrates_hashToScalar, sampleCrates.symmetricEncrypt_length]
      change ((1 : ℕ) : ZMod 7) + 2 ≠ 0
      decide)

/-! ## The instance -/

section Instance

/-- The symmetric ciphers of `EcPrimitives` are inverse to each other. -/
theorem ecPrimitives_lawful [Rng R] (hC : C.Lawful) : C.ecPrimitives.Lawful where
  symmetricDecrypt_symmetricEncrypt key nonce data := by
    have hok := symmetricDecrypt_symmetricEncrypt hC key nonce data
    exact Except.ok.inj ((C.symmetricDecrypt_eq key nonce _).symm.trans hok)
  symmetricEncrypt_symmetricDecrypt := symmetricEncrypt_symmetricDecrypted hC
  xorTag _ _ := rfl

/-- Its tags take 16 bytes, and its public-key overhead 40. -/
theorem ecPrimitives_widths [Rng R] : C.ecPrimitives.Widths 16 40 where
  tag := Codec.array_fixedWidth 16
  key := Codec.array_fixedWidth 16
  cipher rng key data := asymmetricEncryptWith_length (C.randomScalar rng).1 key data
  length_lt := by
    change 16 + addressLength + 4 + 40 < 2 ^ 63
    decide

/-- INTERNAL: a ciphertext that was encrypted to the public key of `generate_keypair` opens, unless
it is degenerate.  SRC: src/primitives.rs:178-188, 224-258 -/
theorem asymmetricDecrypt_of_not_degenerate (hC : C.Lawful) {sk : C.Scalar} {rng : R}
    {message : Bytes} (hlen : message.length < 2 ^ 64)
    (h : ¬ Degenerate sk (C.asymmetricEncrypt rng (C.mul C.base sk) message).1) :
    C.asymmetricDecrypt sk (C.asymmetricEncrypt rng (C.mul C.base sk) message).1 =
      .ok message := by
  apply asymmetricDecrypt_encryptWith hC hlen
  intro hzero
  exact h ⟨_, _, deserializeSealed_encryptWith hC sk _ hlen, hzero⟩

end Instance

end Eror.Analysis
