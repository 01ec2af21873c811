import Eror.Model.Program

/-!
# What is assumed of the primitives

The cryptography is code outside the repository.  The results below use of it what the
trait documents: `symmetric_decrypt` is the inverse of `symmetric_encrypt` for each key and
nonce, `xor_tag` is the exclusive or of the tags' bytes (`Lawful`), tags and keys serialize
to a fixed number of bytes and `asymmetric_encrypt` adds a fixed number of bytes (`Widths`),
and decrypting with a private key undoes encrypting to its public key (`IsKeyPair`).
Nothing is assumed of the MAC, of the key derivation or of the pseudorandom generator.
-/

set_option autoImplicit false

namespace Eror.Model.Primitives

open Library

variable {R : Type}

/-- The ciphers are mutual inverses and `xor_tag` is the exclusive or.
SRC: src/primitives.rs:103-104, 136-156 -/
structure Lawful (P : Primitives R) : Prop where
  symmetricDecrypt_symmetricEncrypt : ∀ k n d,
    P.symmetricDecrypt k n (P.symmetricEncrypt k n d) = d
  symmetricEncrypt_symmetricDecrypt : ∀ k n d,
    P.symmetricEncrypt k n (P.symmetricDecrypt k n d) = d
  xorTag : ∀ a b, P.tagCodec.encode (P.xorTag a b) =
    List.zipWith (· ^^^ ·) (P.tagCodec.encode a) (P.tagCodec.encode b)

/-- Tags take `tagWidth` bytes, keys `SYMMETRIC_KEY_LENGTH`, and a public-key ciphertext takes
`overhead` bytes more than its plaintext.  In `EcPrimitives` these are 16, 16 and 40. -/
structure Widths (P : Primitives R) (tagWidth overhead : ℕ) : Prop where
  tag : P.tagCodec.FixedWidth tagWidth
  key : P.keyCodec.FixedWidth P.symmetricKeyLength
  cipher : ∀ rng pk d, (P.asymmetricEncrypt rng pk d).1.length = d.length + overhead
  /-- The ciphertext of a key and its meta-information is a vector. -/
  length_lt : P.symmetricKeyLength + addressLength + 4 + overhead < 2 ^ 63

/-- `pk` is the public key of `sk`: decryption undoes encryption of a byte string, whose length
fits into 64 bits, whatever is drawn. -/
def IsKeyPair (P : Primitives R) (sk : P.PrivateKey) (pk : P.PublicKey) : Prop :=
  ∀ rng d, d.length < 2 ^ 64 → P.asymmetricDecrypt sk (P.asymmetricEncrypt rng pk d).1 = .ok d

/-- The address has in the key store the public key of the private key used at it. -/
def Registered {P : Primitives R} (F : OnionFormat P) (sk : Address → P.PrivateKey)
    (a : Address) : Prop :=
  ∃ pk, F.pki.get a = some pk ∧ P.IsKeyPair (sk a) pk

/-- A registered address has a key in the key store. -/
theorem Registered.isSome {P : Primitives R} {F : OnionFormat P} {sk : Address → P.PrivateKey}
    {a : Address} (h : Registered F sk a) : (F.pki.get a).isSome := by
  obtain ⟨pk, hget, -⟩ := h
  rw [hget]
  rfl

/-- A path that the format takes: at least one hop, at most as many as the limit, and all of them
registered. -/
structure Routable {P : Primitives R} (F : OnionFormat P) (sk : Address → P.PrivateKey)
    (hops : List Address) : Prop where
  pos : 1 ≤ hops.length
  le : hops.length ≤ F.pathLimit
  registered : ∀ a ∈ hops, Registered F sk a

/-- A path that the format takes has a hop. -/
theorem Routable.ne_nil {P : Primitives R} {F : OnionFormat P} {sk : Address → P.PrivateKey}
    {hops : List Address} (h : Routable F sk hops) : hops ≠ [] :=
  List.ne_nil_of_length_pos h.pos

end Eror.Model.Primitives
