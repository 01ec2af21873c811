import Eror.Model.SphinxHeader

/-!
# Sphinx packets

sphinx/src/payload/, sphinx/src/packet/ and sphinx/src/surb/: the payload with its padding and its
layers, the packet of a header and a payload, and the single use reply block, which is a header
that was made in advance.

`recover_plaintext` has a debug assertion, so it takes the profile as an argument.
-/

set_option autoImplicit false

namespace Eror.Model.Sphinx

open Library

variable (C : Crates)

/-! ## Payloads -/

/-- A payload with its layers.  SRC: sphinx/src/payload/mod.rs:31 -/
structure Payload where
  bytes : Bytes
  deriving DecidableEq

namespace Payload

/-- The size has room for the overhead, for a block of Lioness, and for the message.
SRC: sphinx/src/payload/mod.rs:58-86 -/
def validateParameters (payloadSize plaintextLen : ℕ) : Exec Unit := do
  if payloadSize < payloadOverheadSize then
    fail .invalidPayload "specified payload_size is smaller than the required overhead"
  else if payloadSize < lionessDigestResultSize then
    fail .invalidPayload "specified payload_size is smaller lioness block size"
  else do
    let maximum ← sub payloadSize payloadOverheadSize
    if plaintextLen > maximum then
      fail .invalidPayload (s!"too long message provided. Message was: {plaintextLen}B long, " ++
        s!"maximum_plaintext_length is: {maximum}B")
    else return ()

/-- The iterator knows how many bytes will come, so `collect` asks for all of them at once.  The
padding behind the message is as long as the iterator is asked for.
SRC: sphinx/src/payload/mod.rs:91-101 -/
def setFinalPayload (plaintextMessage : Bytes) (payloadSize : ℕ) : Exec Payload := do
  withCapacity payloadSize
  return ⟨(List.replicate securityParameter 0 ++ plaintextMessage ++ [1] ++
    List.replicate payloadSize 0).take payloadSize⟩

/-- Put a layer on.  SRC: sphinx/src/payload/mod.rs:104-118 -/
def addEncryptionLayer (payload : Payload) (key : Arr payloadKeySize) : Exec Payload :=
  match C.lionessEncrypt key payload.bytes with
  | .ok bytes => .ok ⟨bytes⟩
  | .error err => fail .invalidPayload s!"error while encrypting payload - {err}"

/-- The padded message under the layers of all nodes, the first one's outermost.
SRC: sphinx/src/payload/mod.rs:39-53 -/
def encapsulateMessage (plaintextMessage : Bytes) (payloadKeys : List (Arr payloadKeySize))
    (payloadSize : ℕ) : Exec Payload := do
  validateParameters payloadSize plaintextMessage.length
  let payload ← setFinalPayload plaintextMessage payloadSize
  payloadKeys.reverse.foldlM (addEncryptionLayer C) payload

/-- Take a layer off.  SRC: sphinx/src/payload/mod.rs:121-134 -/
def unwrap (payload : Payload) (key : Arr payloadKeySize) : Exec Payload :=
  match C.lionessDecrypt key payload.bytes with
  | .ok bytes => .ok ⟨bytes⟩
  | .error err => fail .invalidPayload s!"error while unwrapping payload - {err}"

/-- The place of the last element that satisfies `p`: `iter().rposition(p)`. -/
def rposition {α : Type} (p : α → Bool) : List α → Option ℕ
  | [] => none
  | a :: as =>
      match rposition p as with
      | some i => some (i + 1)
      | none => if p a then some 0 else none

/-- The message between the zeroes in front and the last one.
SRC: sphinx/src/payload/mod.rs:138-177 -/
def recoverPlaintext (p : Profile) (payload : Payload) : Exec Bytes := do
  debugAssert p (payloadOverheadSize < payload.bytes.length)
  if !(payload.bytes.take securityParameter).all (· == 0) then
    fail .invalidPayload "malformed payload - no leading zero padding present"
  else
    let paddedPlaintext := payload.bytes.drop securityParameter
    match rposition (· == 1) paddedPlaintext with
    | some i => .ok (paddedPlaintext.take i)
    | none => fail .invalidPayload "malformed payload - invalid trailing padding"

/-- Bytes that are no shorter than the overhead are a payload.
SRC: sphinx/src/payload/mod.rs:202-213 -/
def fromBytes (bytes : Bytes) : Exec Payload :=
  if bytes.length < payloadOverheadSize then
    fail .invalidPayload "too short payload provided"
  else .ok ⟨bytes⟩

end Payload

/-! ## Packets -/

/-- A packet.  SRC: sphinx/src/packet/mod.rs:31-34 -/
structure SphinxPacket where
  header : SphinxHeader
  payload : Payload
  deriving DecidableEq

/-- What a node makes of a packet.  SRC: sphinx/src/packet/mod.rs:15-20 -/
inductive ProcessedPacket
  | forwardHop (packet : SphinxPacket) (nextHopAddress : Arr nodeAddressLength) (delay : Delay)
  | finalHop (destination : Arr destinationAddressLength) (identifier : Arr identifierLength)
      (payload : Payload)

namespace SphinxPacket

/-- `SphinxPacketBuilder`: the secret is the one that was set, or a fresh one.
SRC: sphinx/src/packet/builder.rs:11-14, 31-47 -/
def buildPacket {R : Type} [Rng R] (payloadSize : ℕ) (initialSecret : Option (PrivateKey C))
    (message : Bytes) (route : List Node) (destination : Destination) (delays : List Delay)
    (rng : R) : Exec SphinxPacket := do
  let secret := initialSecret.getD (PrivateKey.new rng)
  let (header, payloadKeys) ← SphinxHeader.new C secret route delays destination
    (genBytes 32 rng).2
  let payload ← Payload.encapsulateMessage C message payloadKeys payloadSize
  return ⟨header, payload⟩

/-- A packet of the default size with a fresh secret.  SRC: sphinx/src/packet/mod.rs:39-46 -/
def new {R : Type} [Rng R] (message : Bytes) (route : List Node) (destination : Destination)
    (delays : List Delay) (rng : R) : Exec SphinxPacket :=
  buildPacket C defaultPayloadSize none message route destination delays rng

/-- The length of a packet.  SRC: sphinx/src/packet/mod.rs:52-55 -/
def len (packet : SphinxPacket) : ℕ := headerSize + packet.payload.bytes.length

/-- What `process` and `process_with_derived_keys` do with a header once it is processed.
SRC: sphinx/src/packet/mod.rs:71-92, 98-119 -/
def unwrapPayload (payload : Payload) : ProcessedHeader → Exec ProcessedPacket
  | .forwardHop header nextHopAddress delay payloadKey => do
      let payload ← payload.unwrap C payloadKey
      return .forwardHop ⟨header, payload⟩ nextHopAddress delay
  | .finalHop destination identifier payloadKey => do
      let payload ← payload.unwrap C payloadKey
      return .finalHop destination identifier payload

/-- Process the header, and take a layer off the payload.  SRC: sphinx/src/packet/mod.rs:96-120 -/
def process (packet : SphinxPacket) (nodeSecretKey : PrivateKey C) : Exec ProcessedPacket := do
  unwrapPayload C packet.payload (← packet.header.process C nodeSecretKey)

/-- The same with keys that were derived before.  SRC: sphinx/src/packet/mod.rs:63-93 -/
def processWithDerivedKeys (packet : SphinxPacket) (newBlindedSecret : Option PublicKey)
    (routingKeys : RoutingKeys) : Exec ProcessedPacket := do
  unwrapPayload C packet.payload
    (← packet.header.processWithDerivedKeys C newBlindedSecret routingKeys)

/-- The header, and the payload behind it.  SRC: sphinx/src/packet/mod.rs:122-129 -/
def toBytes (packet : SphinxPacket) : Bytes := packet.header.toBytes ++ packet.payload.bytes

/-- Bytes that are no shorter than a packet can be are cut in two.
SRC: sphinx/src/packet/mod.rs:131-151 -/
def fromBytes (bytes : Bytes) : Exec SphinxPacket := do
  let least := headerSize + payloadOverheadSize
  if bytes.length < least then
    let length := bytes.length
    fail .invalidPacket
      s!"tried to recover sphinx packet using {length} bytes, expected at least {least}"
  else do
    let header ← SphinxHeader.fromBytes (← sliceTo bytes headerSize)
    let payload ← Payload.fromBytes (← sliceFrom bytes headerSize)
    return ⟨header, payload⟩

end SphinxPacket

/-! ## Single use reply blocks -/

/-- A single use reply block.  SRC: sphinx/src/surb/mod.rs:15-19 -/
structure SURB where
  header : SphinxHeader
  firstHopAddress : Arr nodeAddressLength
  payloadKeys : List (Arr payloadKeySize)
  deriving DecidableEq

/-- What a reply block is made of.  SRC: sphinx/src/surb/mod.rs:37-41 -/
structure SURBMaterial where
  surbRoute : List Node
  surbDelays : List Delay
  surbDestination : Destination

namespace SURB

/-- A reply block for a route with as many delays as nodes.  SRC: sphinx/src/surb/mod.rs:61-93 -/
def new {R : Type} [Rng R] (surbInitialSecret : PrivateKey C) (material : SURBMaterial)
    (rng : R) : Exec SURB := do
  match material.surbRoute with
  | [] => fail .invalidSURB "tried to create SURB for an empty route"
  | firstHop :: _ =>
      let routeLength := material.surbRoute.length
      let delayCount := material.surbDelays.length
      if routeLength ≠ delayCount then
        fail .invalidSURB (s!"creating SURB for contradictory data: route has len {routeLength} " ++
          s!"while there are {delayCount} delays generated")
      else do
        let (header, payloadKeys) ← SphinxHeader.new C surbInitialSecret material.surbRoute
          material.surbDelays material.surbDestination rng
        return ⟨header, firstHop.address, payloadKeys⟩

/-- A reply block with a fresh secret.  SRC: sphinx/src/surb/mod.rs:53-56 -/
def construct {R : Type} [Rng R] (material : SURBMaterial) (rng : R) : Exec SURB :=
  new C (PrivateKey.new rng) material (genBytes 32 rng).2

/-- A packet for the holder of the reply block, and the address of the first node.
SRC: sphinx/src/surb/mod.rs:98-111 -/
def useSurb (surb : SURB) (plaintextMessage : Bytes) (payloadSize : ℕ) :
    Exec (SphinxPacket × Arr nodeAddressLength) := do
  let payload ← Payload.encapsulateMessage C plaintextMessage surb.payloadKeys payloadSize
  return (⟨surb.header, payload⟩, surb.firstHopAddress)

/-- The header, the address, and the payload keys one behind the other.
SRC: sphinx/src/surb/mod.rs:113-120 -/
def toBytes (surb : SURB) : Bytes :=
  surb.header.toBytes ++ surb.firstHopAddress.toList ++
    surb.payloadKeys.flatMap List.Vector.toList

/-- One round of the loop that reads the payload keys.  SRC: sphinx/src/surb/mod.rs:148-154 -/
def readKey (bytes : Bytes) (i : ℕ) : Exec (Arr payloadKeySize) := do
  copyFromSlice payloadKeySize (← sliceTo (← sliceFrom bytes (i * payloadKeySize)) payloadKeySize)

/-- The address of these bytes.  SRC: sphinx/src/route.rs:121-133 -/
def nodeAddressFromSlice (bytes : Bytes) : Exec (Arr nodeAddressLength) :=
  if bytes.length ≠ nodeAddressLength then
    fail .invalidRouting "received bytes got invalid length"
  else copyFromSlice nodeAddressLength bytes

/-- Bytes that are long enough and end with a whole key are cut into their parts.
SRC: sphinx/src/surb/mod.rs:122-161 -/
def fromBytes (bytes : Bytes) : Exec SURB := do
  if bytes.length < headerSize + nodeAddressLength + payloadKeySize then
    fail .invalidSURB "not enough bytes provided to try to recover a SURB"
  else do
    let headerBytes ← sliceTo bytes headerSize
    let firstHopBytes ← sliceTo (← sliceFrom bytes headerSize) nodeAddressLength
    let payloadKeysBytes ← sliceFrom bytes (headerSize + nodeAddressLength)
    if payloadKeysBytes.length % payloadKeySize ≠ 0 then
      fail .invalidSURB "bytes of invalid length provided"
    else do
      let header ← SphinxHeader.fromBytes headerBytes
      let firstHopAddress ← nodeAddressFromSlice firstHopBytes
      let keyCount := payloadKeysBytes.length / payloadKeySize
      let payloadKeys ← (List.range keyCount).mapM (readKey payloadKeysBytes)
      return ⟨header, firstHopAddress, payloadKeys⟩

end SURB

end Eror.Model.Sphinx
