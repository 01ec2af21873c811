import Eror.Analysis.UnwrapLayer
import Eror.Analysis.PublicKeyEncryption
import Eror.Interface.SamplePrimitives

/-!
# Public-key decryption of arbitrary bytes

`asymmetric_decrypt` is written not to crash on a ciphertext that was tampered with: bytes that
are no point and byte string take a second path, which hashes the place of the point and
decrypts what stands behind the place of the length.  These places are sliced without a look at
the length, so an input of fewer than 40 bytes, which always ends up there, panics
(`asymmetricDecrypt_of_short`).  Every other input is decrypted, whatever it holds.

The input is the data of an onion's first block, a byte string behind its own length that is
decrypted before any MAC is compared.
-/

set_option autoImplicit false

namespace Eror.Analysis

open Library Model

variable {R : Type} {C : EcCrates R}

/-- INTERNAL: what parses has a point and a length in front.  SRC: src/primitives.rs:246 -/
theorem deserializeSealed_length {data payload : Bytes} {u : C.Point}
    (h : C.deserializeSealed data = some (u, payload)) : payload.length + 40 ≤ data.length := by
  simp only [EcCrates.deserializeSealed, Option.bind_eq_bind, Option.bind_eq_some_iff,
    Option.pure_def, Option.some.injEq, Prod.mk.injEq, Prod.exists] at h
  obtain ⟨point, rest, hpoint, u', -, payload', hpayload, -, rfl⟩ := h
  obtain ⟨-, trailing, hrest⟩ := Codec.bytes.deserialize_eq_some hpayload
  have hdata := (Codec.array 32).encode_of_decode _ _ _ hpoint
  rw [← hdata, ← hrest, Codec.array_encode, Codec.bytes_encode]
  simp only [List.length_append, List.Vector.toList_length, toLE_length]
  omega

/-- INTERNAL: fewer than 40 bytes do not parse and are sliced out of range.
SRC: src/primitives.rs:246, 252-253 -/
theorem asymmetricDecrypt_of_short (sk : C.Scalar) {data : Bytes} (h : data.length < 40) :
    C.asymmetricDecrypt sk data = .error .panic := by
  unfold EcCrates.asymmetricDecrypt
  cases hsealed : C.deserializeSealed data with
  | some p =>
      have hlen := deserializeSealed_length hsealed
      omega
  | none =>
      have hdata : sliceFrom data 40 = .error .panic := if_neg (by omega)
      by_cases hpoint : 32 ≤ data.length
      · dsimp only
        rw [sliceTo, if_pos hpoint, ok_bind, hdata, error_bind]
      · dsimp only
        rw [sliceTo, if_neg hpoint, error_bind]

/-- INTERNAL: 40 bytes or more are decrypted, whether they parse or not.
SRC: src/primitives.rs:246-257 -/
theorem asymmetricDecrypt_of_length (sk : C.Scalar) {data : Bytes} (h : 40 ≤ data.length) :
    ∃ plain, C.asymmetricDecrypt sk data = .ok plain ∧ plain.length + 40 ≤ data.length := by
  unfold EcCrates.asymmetricDecrypt
  cases hsealed : C.deserializeSealed data with
  | some p =>
      obtain ⟨u, payload⟩ := p
      have hlen := deserializeSealed_length hsealed
      obtain ⟨plain, hok, hplain⟩ := C.symmetricDecrypt_ok
        (C.hashEdwards (C.mul u (C.hashToScalar payload + sk)⁻¹)) 0 payload
      refine ⟨plain, hok, ?_⟩
      omega
  | none =>
      have hpoint : 32 ≤ data.length := by omega
      obtain ⟨plain, hok, hplain⟩ := C.symmetricDecrypt_ok
        (truncate 16 (by decide) (C.sha3_256 (data.take 32))) 0 (data.drop 40)
      rw [List.length_drop] at hplain
      dsimp only
      rw [sliceTo, if_pos hpoint, ok_bind, sliceFrom, if_pos h, ok_bind]
      refine ⟨plain, hok, ?_⟩
      omega

/-- **Public-key decryption returns a byte string no longer than its input exactly when the input
has at least 40 bytes.**  So `unwrap`, on an onion of as many blocks as the limit and at least
one, panics exactly when the first block parses and holds less data than that.
SRC: src/primitives.rs:238-258, src/lib.rs:551-553 -/
theorem asymmetricDecrypt_returns_iff [Rng R] (C : EcCrates R) :
    (∀ (sk : C.Scalar) (data : Bytes),
      (∃ plain, C.asymmetricDecrypt sk data = .ok plain ∧ plain.length ≤ data.length) ↔
        40 ≤ data.length) ∧
    ∀ (F : OnionFormat C.ecPrimitives) (sk : C.Scalar) (o : Onion C.ecPrimitives),
      o.header ≠ [] → o.header.length = F.pathLimit →
      (F.unwrap sk o ≠ .error .panic ↔
        ∀ block, FirstBlock o block → 40 ≤ block.data.length) := by
  constructor
  · intro sk data
    constructor
    · rintro ⟨plain, hok, -⟩
      by_contra hshort
      rw [asymmetricDecrypt_of_short sk (by omega)] at hok
      cases hok
    · intro h
      obtain ⟨plain, hok, hplain⟩ := asymmetricDecrypt_of_length sk h
      exact ⟨plain, hok, by omega⟩
  · intro F sk o hne hlen
    constructor
    · intro hpanic block hfirst
      by_contra hshort
      exact hpanic (unwrap_of_decrypt_error hfirst (asymmetricDecrypt_of_short sk (by omega)))
    · intro hdata
      apply unwrap_noPanic (Codec.array_fixedWidth 16) _ hne fun _ _ _ => hlen
      intro block hfirst
      obtain ⟨plain, hok, -⟩ := asymmetricDecrypt_of_length sk (hdata block hfirst)
      exact ⟨plain, hok⟩

/-! ## Concrete onions -/

/-- A format for a single hop over the sample crates. -/
def sampleEcFormat : OnionFormat sampleCrates.ecPrimitives := ⟨1, ⟨fun _ => none⟩⟩

/-- The onion whose only block has the given bytes. -/
def oneBlock (bs : Bytes) : Onion sampleCrates.ecPrimitives :=
  ⟨[.raw bs], [], ([], List.Vector.replicate 16 0)⟩

/-- The first block of such an onion is the only one. -/
theorem oneBlock_firstBlock {bs : Bytes} {block block' : HeaderBlock sampleCrates.ecPrimitives}
    (hparse : HeaderBlock.unpack bs = .ok block) (h : FirstBlock (oneBlock bs) block') :
    block' = block := by
  obtain ⟨first, rest, hheader, hblock⟩ := h
  cases hheader
  exact Except.ok.inj (hblock.symm.trans hparse)

/-- A string of 40 zero bytes is decrypted, and a block that holds it does not make `unwrap`
panic. -/
theorem asymmetricDecrypt_returns_iff_sample :
    (∃ plain, sampleCrates.asymmetricDecrypt (2 : ZMod 7) (List.replicate 40 0) = .ok plain ∧
      plain.length ≤ 40) ∧
    sampleEcFormat.unwrap (2 : ZMod 7)
      (oneBlock (List.replicate 16 0 ++ toLE 8 40 ++ List.replicate 40 0)) ≠ .error .panic := by
  have hreturns := asymmetricDecrypt_returns_iff sampleCrates
  constructor
  · exact (hreturns.1 (2 : ZMod 7) (List.replicate 40 0)).mpr (by decide)
  · apply (hreturns.2 sampleEcFormat (2 : ZMod 7) _ (List.cons_ne_nil _ _) rfl).mpr
    intro block hfirst
    have hread : HeaderBlock.unpack (P := sampleCrates.ecPrimitives)
        (List.replicate 16 0 ++ toLE 8 40 ++ List.replicate 40 0) =
          .ok ⟨List.Vector.replicate 16 0, List.replicate 40 0⟩ := rfl
    rw [oneBlock_firstBlock hread hfirst]
    decide

/-- The empty string makes the decryption panic.  So does, for `unwrap`, a block of 116 zero
bytes, the length that blocks of the format have: it parses as a block without data.
SRC: src/primitives.rs:252, src/lib.rs:304-312, 551-552 -/
theorem asymmetricDecrypt_returns_fails :
    sampleCrates.asymmetricDecrypt (2 : ZMod 7) [] = .error .panic ∧
    sampleEcFormat.singleHeaderLength = 116 ∧
    (oneBlock (List.replicate 116 0)).header.length = sampleEcFormat.pathLimit ∧
    sampleEcFormat.unwrap (2 : ZMod 7) (oneBlock (List.replicate 116 0)) = .error .panic := by
  have hshort : sampleCrates.asymmetricDecrypt (2 : ZMod 7) [] = .error .panic :=
    asymmetricDecrypt_of_short (C := sampleCrates) (2 : ZMod 7) (by decide)
  refine ⟨hshort, rfl, rfl, ?_⟩
  have hread : (Header.raw (List.replicate 24 0) : Header sampleCrates.ecPrimitives).intoParsed =
      .ok ⟨List.Vector.replicate 16 0, []⟩ := rfl
  have hparse := intoParsed_append hread (List.replicate 92 0)
  rw [Header.intoBytes_raw, List.replicate_append_replicate] at hparse
  exact unwrap_of_decrypt_error ⟨_, _, rfl, hparse⟩ hshort

end Eror.Analysis
