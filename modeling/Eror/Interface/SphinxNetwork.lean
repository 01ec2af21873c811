import Mathlib.Data.UInt
import Eror.Interface.SamplePrimitives
import Eror.Library.Simulation
import Eror.Model.SphinxPacket

/-!
# Sphinx nodes on a network, and what is assumed of the crates

A node receives bytes, reads a packet from them, processes it with its secret key, and sends the
packet that comes out to the next hop as bytes again.  On its way the bytes may be changed.

Of curve25519-dalek it is assumed that multiplying a multiple of the base point by a scalar
multiplies the scalars, of Lioness that decryption undoes encryption, that both keep the length,
and that both take every block longer than a digest.  HKDF, HMAC and the keystream of AES may be
anything.
-/

set_option autoImplicit false

namespace Eror.Model.Sphinx

open Library

/-- What the proofs use of the crates: shared secrets do not depend on the order of the factors, and
Lioness is a cipher that keeps the length and takes any block longer than a digest.
SRC: sphinx/src/crypto/keys.rs:15-19 -/
structure Crates.Lawful (C : Crates) : Prop where
  mul_mulBase : ∀ a b, C.mul b (C.mulBase a) = C.mulBase (a * b)
  lionessDecrypt_lionessEncrypt : ∀ key data sealed, C.lionessEncrypt key data = .ok sealed →
    C.lionessDecrypt key sealed = .ok data
  lionessEncrypt_length : ∀ key data sealed, C.lionessEncrypt key data = .ok sealed →
    sealed.length = data.length
  lionessDecrypt_length : ∀ key sealed data, C.lionessDecrypt key sealed = .ok data →
    data.length = sealed.length
  lionessEncrypt_ok : ∀ key data, lionessDigestResultSize < data.length →
    ∃ sealed, C.lionessEncrypt key data = .ok sealed
  lionessDecrypt_ok : ∀ key sealed, lionessDigestResultSize < sealed.length →
    ∃ data, C.lionessDecrypt key sealed = .ok data

/-! ## Nodes -/

/-- What a node learns of a packet. -/
inductive Outcome
  | forwardHop (nextHopAddress : Arr nodeAddressLength) (delay : Delay)
  | finalHop (destination : Arr destinationAddressLength) (identifier : Arr identifierLength)
      (payload : Payload)

/-- A node receives bytes, and what it sends goes to the next hop.
SRC: sphinx/src/packet/mod.rs:96-151 -/
def node {C : Crates} (secretKey : PrivateKey C) (bytes : Bytes) :
    Exec (Outcome × Option (Arr nodeAddressLength × Bytes)) := do
  let packet ← SphinxPacket.fromBytes bytes
  match ← packet.process C secretKey with
  | .forwardHop packet nextHopAddress delay =>
      return (.forwardHop nextHopAddress delay, some (nextHopAddress, packet.toBytes))
  | .finalHop destination identifier payload =>
      return (.finalHop destination identifier payload, none)

/-! ## Links -/

/-- One node's turn. -/
structure Event where
  node : Arr nodeAddressLength
  received : Bytes
  outcome : Outcome

/-- Bytes on a link: how many links they have passed, and which node they go to. -/
structure InTransit where
  passed : ℕ
  node : Arr nodeAddressLength
  bytes : Bytes

/-- The nodes, with a secret key for each address, and someone who may change the bytes on every
link. -/
def network {C : Crates} (secretKey : Arr nodeAddressLength → PrivateKey C)
    (link : ℕ → Bytes → Bytes) : Machine InTransit Event Fault where
  step s := do
    let received := link s.passed s.bytes
    let (outcome, next) ← node (secretKey s.node) received
    return (⟨s.node, received, outcome⟩, next.map fun n => ⟨s.passed + 1, n.1, n.2⟩)

/-- The header and the length stay as they are. -/
structure KeepsHeader (link : ℕ → Bytes → Bytes) : Prop where
  take : ∀ i bytes, (link i bytes).take headerSize = bytes.take headerSize
  length : ∀ i bytes, (link i bytes).length = bytes.length

/-- What the nodes of a route learn of a packet whose last payload is the given one. -/
def hopOutcomes (route : List Node) (delays : List Delay) (dest : Destination)
    (payload : Payload) : List Outcome :=
  ((route.tail.map Node.address).zip delays).map (fun hop => .forwardHop hop.1 hop.2) ++
    [.finalHop dest.address dest.identifier payload]

/-- A packet goes along a route, always in the same number of bytes, and if nobody changes them
then the last node can read the message, in either profile. -/
def Delivers {C : Crates} (secretKey : Arr nodeAddressLength → PrivateKey C)
    (link : ℕ → Bytes → Bytes) (route : List Node) (delays : List Delay) (dest : Destination)
    (message : Bytes) (packet : SphinxPacket) : Prop :=
  ∃ first events payload, route.head? = some first ∧
    (network secretKey link).run route.length ⟨0, first.address, packet.toBytes⟩ =
      .ok (events, none) ∧
    events.map Event.node = route.map Node.address ∧
    events.map Event.outcome = hopOutcomes route delays dest payload ∧
    (∀ e ∈ events, e.received.length = packet.len) ∧
    ((∀ i bytes, link i bytes = bytes) → ∀ p, payload.recoverPlaintext p = .ok message)

/-! ## Crates that evaluate -/

/-- Bytes as scalars, and 32 times a byte as a point. -/
def sampleCrates : Crates where
  Scalar := UInt8
  fromBits bytes := bytes.head
  fromBytesModOrder bytes := bytes.head
  mulBase a := List.Vector.replicate 32 a
  mul a point := List.Vector.replicate 32 (point.head * a)
  aes128Ctr key _ n := List.replicate n key.head
  hkdfSha256 ikm _ n := List.replicate n (ikm.headD 0 + 1)
  hmacSha256 key data := List.Vector.replicate 32 (key.sum + data.sum)
  lionessEncrypt key data :=
    if 32 < data.length then .ok (data.map (· + key.head)) else .error "block too short"
  lionessDecrypt key data :=
    if 32 < data.length then .ok (data.map (· - key.head)) else .error "block too short"
  aes128Ctr_length _ _ _ := List.length_replicate
  hkdfSha256_length _ _ _ := List.length_replicate

/-- The sample has the properties assumed of the crates. -/
theorem sampleCrates_lawful : sampleCrates.Lawful where
  mul_mulBase _ _ := rfl
  lionessDecrypt_lionessEncrypt key data sealed h := by
    by_cases hlen : 32 < data.length
    · cases (if_pos hlen).symm.trans h
      refine (if_pos ?_).trans ?_
      · rwa [List.length_map]
      · simp [Function.comp_def]
    · cases (if_neg hlen).symm.trans h
  lionessEncrypt_length key data sealed h := by
    by_cases hlen : 32 < data.length
    · cases (if_pos hlen).symm.trans h
      exact List.length_map _
    · cases (if_neg hlen).symm.trans h
  lionessDecrypt_length key sealed data h := by
    by_cases hlen : 32 < sealed.length
    · cases (if_pos hlen).symm.trans h
      exact List.length_map _
    · cases (if_neg hlen).symm.trans h
  lionessEncrypt_ok key data h := ⟨_, if_pos h⟩
  lionessDecrypt_ok key sealed h := ⟨_, if_pos h⟩

/-- The secret key of the node at an address. -/
def sampleKey (address : Arr nodeAddressLength) : PrivateKey sampleCrates where
  scalar := address.head

/-- The node whose address repeats a byte, with its public key. -/
def sampleNode (b : UInt8) : Node where
  address := List.Vector.replicate _ b
  pubKey := (sampleKey (List.Vector.replicate _ b)).publicKey

/-- A route of three nodes. -/
def sampleRoute : List Node := [sampleNode 5, sampleNode 4, sampleNode 2]

/-- A delay for each of its nodes. -/
def sampleDelays : List Delay := [10, 20, 30]

/-- Where its last node sends the payload. -/
def sampleDestination : Destination where
  address := List.Vector.replicate _ 3
  identifier := List.Vector.replicate _ 4

/-- The nodes of the route have the keys that belong to their addresses. -/
theorem sampleRoute_keys :
    ∀ node ∈ sampleRoute, node.pubKey = (sampleKey node.address).publicKey := by
  simp [sampleRoute, sampleNode]

/-- Every byte of the payload is changed on every link but the first. -/
def sampleLink (i : ℕ) (bytes : Bytes) : Bytes :=
  bytes.take headerSize ++ (bytes.drop headerSize).map (· + UInt8.ofNat i)

/-- The link changes payloads only, and no lengths. -/
theorem sampleLink_keepsHeader : KeepsHeader sampleLink where
  take i bytes := by
    rw [sampleLink, List.take_append, List.take_take, Nat.min_self, List.length_take]
    by_cases h : headerSize ≤ bytes.length
    · rw [Nat.min_eq_left h, Nat.sub_self, List.take_zero, List.append_nil]
    · rw [List.drop_of_length_le (Nat.le_of_not_le h), List.map_nil, List.take_nil,
        List.append_nil]
  length i bytes := by
    rw [sampleLink, List.length_append, List.length_map, List.length_take, List.length_drop]
    omega

end Eror.Model.Sphinx
