import Eror.Interface.Assumptions

/-!
# A collection of primitives that evaluates

`samplePrimitives` has the sizes of `EcPrimitives` (16-byte tags and keys, 40 bytes of
public-key overhead) and satisfies everything `Interface.Assumptions` asks for, with ciphers
that add a byte derived from key and nonce.  It is what concrete inputs are evaluated with;
no result about the format depends on it.
-/

set_option autoImplicit false

namespace Eror.Model

open Library

/-- A generator that counts. -/
instance countingRng : Rng ℕ where
  gen n := (UInt8.ofNat n, n + 1)

/-- The byte that a role adds to a key. -/
def KeyRole.sampleByte : KeyRole → UInt8
  | .symEnc => 1
  | .mac => 2
  | .authEnc => 3
  | .end2End => 4
  | .prng => 5
  | .forward i => 6 + 16 * i.toUInt8
  | .backward i => 7 + 16 * i.toUInt8
  | .uhf => 8

/-- The byte that a key and a counter add to the data. -/
def sampleByte (k : List.Vector UInt8 16) (n : UInt32) : UInt8 := k.head + n.toUInt8

/-- A public-key ciphertext: 40 bytes and the shifted plaintext. -/
def sampleSeal (k : UInt8) (d : Bytes) : Bytes :=
  List.replicate 32 k ++ toLE 8 d.length ++ d.map (· + k)

/-- The overhead of a public-key ciphertext is 40 bytes. -/
theorem sampleSeal_length (k : UInt8) (d : Bytes) : (sampleSeal k d).length = d.length + 40 := by
  simp only [sampleSeal, List.length_append, List.length_replicate, toLE_length, List.length_map]
  omega

/-- Primitives of the sizes of `EcPrimitives`, with byte shifts for ciphers. -/
def samplePrimitives : Primitives ℕ where
  Tag := List.Vector UInt8 16
  PublicKey := UInt8
  PrivateKey := UInt8
  SymmetricKey := List.Vector UInt8 16
  defaultTag := List.Vector.replicate 16 0
  tagCodec := Codec.array 16
  keyCodec := Codec.array 16
  symmetricKeyLength := 16
  randomKey rng := (List.Vector.replicate 16 (UInt8.ofNat rng), rng + 1)
  randomTag rng := (List.Vector.replicate 16 (UInt8.ofNat rng), rng + 1)
  tag k d := List.Vector.replicate 16 (d.foldl (fun s b => 3 * s + b) k.head)
  xorTag a b := List.Vector.map₂ (· ^^^ ·) a b
  asymmetricEncrypt rng pk d := (sampleSeal pk d, rng)
  asymmetricDecrypt sk d := .ok ((d.drop 40).map (· - sk))
  deriveKey role k := k.map (· + role.sampleByte)
  symmetricEncrypt k n d := d.map (· + sampleByte k n)
  symmetricDecrypt k n d := d.map (· - sampleByte k n)
  prng k d := d.map fun _ => k.head
  symmetricEncrypt_length _ _ _ := List.length_map _
  symmetricDecrypt_length _ _ _ := List.length_map _
  prng_length _ _ := List.length_map _

/-- The symmetric ciphers of the sample are inverse to each other. -/
theorem samplePrimitives_lawful : samplePrimitives.Lawful where
  symmetricDecrypt_symmetricEncrypt k n d := by simp [samplePrimitives, Function.comp_def]
  symmetricEncrypt_symmetricDecrypt k n d := by simp [samplePrimitives, Function.comp_def]
  xorTag _ _ := rfl

/-- Tags are 16 bytes long and the public-key overhead is 40 bytes. -/
theorem samplePrimitives_widths : samplePrimitives.Widths 16 40 where
  tag := Codec.array_fixedWidth 16
  key := Codec.array_fixedWidth 16
  cipher _ pk d := sampleSeal_length pk d
  length_lt := by decide

/-- Every key of the sample is its own public key. -/
theorem samplePrimitives_isKeyPair (k : UInt8) : samplePrimitives.IsKeyPair k k := by
  intro rng d _
  have hlen : (List.replicate 32 k ++ toLE 8 d.length).length = 40 := by simp
  simp only [samplePrimitives, sampleSeal]
  rw [List.drop_left' hlen]
  simp [Function.comp_def]

/-- The address that repeats a byte. -/
def sampleAddress (b : UInt8) : Address := List.Vector.replicate addressLength b

/-- The private key used at an address: its first byte. -/
def samplePrivateKey (a : Address) : samplePrimitives.PrivateKey := (a.head : UInt8)

/-- A format for paths of up to `n` hops in which every address is registered. -/
def sampleFormat (n : UInt32) : OnionFormat samplePrimitives where
  maxPathLength := n
  pki := ⟨fun a => some (samplePrivateKey a)⟩

/-- Every address is registered with the sample's key store. -/
theorem sampleFormat_registered (n : UInt32) (a : Address) :
    Primitives.Registered (sampleFormat n) samplePrivateKey a :=
  ⟨samplePrivateKey a, rfl, samplePrimitives_isKeyPair _⟩

/-- So every path within the limit is taken. -/
theorem sampleFormat_routable (n : UInt32) {hops : List Address} (hpos : 1 ≤ hops.length)
    (hle : hops.length ≤ n.toNat) : Primitives.Routable (sampleFormat n) samplePrivateKey hops :=
  ⟨hpos, hle, fun a _ => sampleFormat_registered n a⟩

/-! ## Wider tags -/

/-- The same primitives with tags of 32 bytes, for a MAC that shows the length of its input. -/
def widePrimitives : Primitives ℕ :=
  { samplePrimitives with
    Tag := List.Vector UInt8 32
    tagDecidableEq := inferInstance
    defaultTag := List.Vector.replicate 32 0
    tagCodec := Codec.array 32
    randomTag rng := (List.Vector.replicate 32 (UInt8.ofNat rng), rng + 1)
    tag _ d := List.Vector.replicate 32 (UInt8.ofNat d.length)
    xorTag a b := List.Vector.map₂ (· ^^^ ·) a b }

/-- The ciphers of the wide sample are inverse to each other. -/
theorem widePrimitives_lawful : widePrimitives.Lawful where
  symmetricDecrypt_symmetricEncrypt := samplePrimitives_lawful.symmetricDecrypt_symmetricEncrypt
  symmetricEncrypt_symmetricDecrypt := samplePrimitives_lawful.symmetricEncrypt_symmetricDecrypt
  xorTag _ _ := rfl

/-- The tags of the wide sample are 32 bytes long. -/
theorem widePrimitives_widths : widePrimitives.Widths 32 40 where
  tag := Codec.array_fixedWidth 32
  key := Codec.array_fixedWidth 16
  cipher _ pk d := sampleSeal_length pk d
  length_lt := by decide

/-- A format for paths of up to `n` hops with the wider tags, in which every address is
registered. -/
def wideFormat (n : UInt32) : OnionFormat widePrimitives where
  maxPathLength := n
  pki := ⟨fun a => some (samplePrivateKey a)⟩

/-- The wide sample takes every path within the limit. -/
theorem wideFormat_routable (n : UInt32) {hops : List Address} (hpos : 1 ≤ hops.length)
    (hle : hops.length ≤ n.toNat) : Primitives.Routable (wideFormat n) samplePrivateKey hops :=
  ⟨hpos, hle, fun a _ => ⟨samplePrivateKey a, rfl, samplePrimitives_isKeyPair _⟩⟩

end Eror.Model
