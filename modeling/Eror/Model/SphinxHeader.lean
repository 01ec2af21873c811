import Eror.Model.SphinxCrypto

/-!
# The header of a Sphinx packet

sphinx/src/header/: the delay and the MAC of a hop, the filler, the routing information of the
forward hops and of the final one, and `SphinxHeader`, which is made by the sender and processed
by each hop.

The padding of the final hop's routing information is drawn, so what makes it takes a source of
randomness.
-/

set_option autoImplicit false

namespace Eror.Model.Sphinx

open Library

variable (C : Crates)

/-- Nanoseconds.  SRC: sphinx/src/header/delays.rs:23 -/
abbrev Delay := UInt64

namespace Delay

/-- Big-endian.  SRC: sphinx/src/header/delays.rs:45-49 -/
def toBytes (delay : Delay) : Arr delayLength :=
  Arr.of (toLE delayLength delay.toNat).reverse (by simp)

/-- The delay that eight bytes stand for.  SRC: sphinx/src/header/delays.rs:51-53 -/
def fromBytes (bytes : Arr delayLength) : Delay := UInt64.ofNat (ofLE bytes.toList.reverse)

end Delay

/-- The MAC of a header.  SRC: sphinx/src/header/mac.rs:25 -/
abbrev HeaderIntegrityMac := Arr headerIntegrityMacSize

namespace HeaderIntegrityMac

/-- The front of the HMAC.  SRC: sphinx/src/header/mac.rs:28-46 -/
def compute (key : Arr integrityMacKeySize) (headerData : Bytes) : HeaderIntegrityMac :=
  (computeKeyedHmac C key.toList headerData).slice 0 headerIntegrityMacSize (by decide)

/-- Whether the MAC is the one of these data.  SRC: sphinx/src/header/mac.rs:48-55 -/
def verify (mac : HeaderIntegrityMac) (key : Arr integrityMacKeySize) (encRoutingInfo : Bytes) :
    Bool :=
  mac = compute C key encRoutingInfo

end HeaderIntegrityMac

/-- The keystream of a hop. -/
def hopKeystream (key : Arr streamCipherKeySize) : Bytes :=
  generatePseudorandomBytes C key streamCipherInitVector streamCipherOutputLength

/-! ## The filler -/

namespace Filler

/-- One round: append zeroes and combine with the end of the hop's keystream.
SRC: sphinx/src/header/filler.rs:53-77 -/
def fillerStep (fillerStringAccumulator : Bytes) (i : ℕ) (pseudorandomBytes : Bytes) :
    Exec Bytes := do
  assert (pseudorandomBytes.length = streamCipherOutputLength)
  assert (fillerStringAccumulator.length = fillerStepSizeIncrease * (i - 1))
  let zeroBytes := List.replicate fillerStepSizeIncrease 0
  let start ← sub pseudorandomBytes.length (i * fillerStepSizeIncrease)
  xor (fillerStringAccumulator ++ zeroBytes) (← sliceFrom pseudorandomBytes start)

/-- The filler of a route whose hops but the last have these keys.
SRC: sphinx/src/header/filler.rs:28-51 -/
def new (routingKeys : List RoutingKeys) : Exec Bytes := do
  assert (routingKeys.length ≤ maxPathLength)
  let pseudorandomBytes := routingKeys.map fun keys => hopKeystream C keys.streamCipherKey
  pseudorandomBytes.zipIdx.foldlM (fun acc s => fillerStep acc (s.2 + 1) s.1) []

end Filler

/-! ## Routing information -/

/-- The flag of a forward hop.  SRC: sphinx/src/header/routing/mod.rs:33 -/
def forwardHop : UInt8 := 1

/-- The flag of the last hop.  SRC: sphinx/src/header/routing/mod.rs:34 -/
def finalHop : UInt8 := 2

/-- The version of the crate, in sphinx/Cargo.toml.  SRC: sphinx/src/header/routing/mod.rs:46-56 -/
def version : Bytes := [0, 1, 0]

/-- The encrypted routing information of a hop.  SRC: sphinx/src/header/routing/nodes.rs:104-106 -/
abbrev EncryptedRoutingInformation := Arr encryptedRoutingInfoSize

/-- The encrypted routing information and its MAC.  SRC: sphinx/src/header/routing/mod.rs:61-64 -/
structure EncapsulatedRoutingInformation where
  encRoutingInformation : EncryptedRoutingInformation
  integrityMac : HeaderIntegrityMac
  deriving DecidableEq

/-- What a hop reads in its routing information.  SRC: sphinx/src/header/routing/nodes.rs:191-194 -/
inductive ParsedRawRoutingInformation
  | forwardHop (nextHopAddress : Arr nodeAddressLength) (delay : Delay)
      (nextHop : EncapsulatedRoutingInformation)
  | finalHop (destination : Arr destinationAddressLength) (identifier : Arr identifierLength)

namespace RoutingInformation

/-- `RoutingInformation::new` and `concatenate_components`.
SRC: sphinx/src/header/routing/nodes.rs:50-75, 123-127 -/
def concatenateComponents (nodeAddress : Arr nodeAddressLength) (delay : Delay)
    (next : EncapsulatedRoutingInformation) : Bytes :=
  forwardHop :: (version ++ nodeAddress.toList ++ delay.toBytes.toList ++
    next.integrityMac.toList ++ next.encRoutingInformation.toList.take truncatedRoutingInfoSize)

/-- The components under the hop's keystream.  SRC: sphinx/src/header/routing/nodes.rs:77-98 -/
def encrypt (routingInfoComponents : Bytes) (key : Arr streamCipherKeySize) :
    Exec EncryptedRoutingInformation := do
  assert (encryptedRoutingInfoSize = routingInfoComponents.length)
  let encrypted ← xor routingInfoComponents (← sliceTo (hopKeystream C key)
    encryptedRoutingInfoSize)
  copyFromSlice encryptedRoutingInfoSize encrypted

end RoutingInformation

namespace EncryptedRoutingInformation

/-- Compute the MAC.  SRC: sphinx/src/header/routing/nodes.rs:133-142 -/
def encapsulateWithMac (value : EncryptedRoutingInformation) (key : Arr integrityMacKeySize) :
    EncapsulatedRoutingInformation :=
  ⟨value, HeaderIntegrityMac.compute C key value.toList⟩

/-- The room for the next hop's share, as zeroes.  SRC: sphinx/src/header/routing/nodes.rs:144-157
-/
def addZeroPadding (value : EncryptedRoutingInformation) : Exec Bytes := do
  let padded := value.toList ++ List.replicate (nodeMetaInfoSize + headerIntegrityMacSize) 0
  assert (encryptedRoutingInfoSize + nodeMetaInfoSize + headerIntegrityMacSize = padded.length)
  return padded

/-- The padded bytes under the hop's keystream.  SRC: sphinx/src/header/routing/nodes.rs:173-184 -/
def decrypt (padded : Bytes) (key : Arr streamCipherKeySize) : Exec Bytes := do
  let pseudorandomBytes := hopKeystream C key
  assert (padded.length = pseudorandomBytes.length)
  xor padded pseudorandomBytes

/-- The bytes before decryption that the parts of a raw routing information begin at, which the
parsers advance through: the flag, the version, the address. -/
def addressOffset : ℕ := flagLength + versionLength

/-- The next address, the delay, and the next hop's routing information.
SRC: sphinx/src/header/routing/nodes.rs:214-249 -/
def parseAsForwardHop (value : Arr streamCipherOutputLength) : ParsedRawRoutingInformation :=
  let delayOffset := addressOffset + nodeAddressLength
  let macOffset := delayOffset + delayLength
  .forwardHop (value.slice addressOffset nodeAddressLength (by decide))
    (Delay.fromBytes (value.slice delayOffset delayLength (by decide)))
    ⟨value.slice (macOffset + headerIntegrityMacSize) encryptedRoutingInfoSize (by decide),
      value.slice macOffset headerIntegrityMacSize (by decide)⟩

/-- The destination and the identifier.  SRC: sphinx/src/header/routing/nodes.rs:252-269 -/
def parseAsFinalHop (value : Arr streamCipherOutputLength) : ParsedRawRoutingInformation :=
  .finalHop (value.slice addressOffset destinationAddressLength (by decide))
    (value.slice (addressOffset + destinationAddressLength) identifierLength (by decide))

/-- The flag decides which of the two is read.  SRC: sphinx/src/header/routing/nodes.rs:197-212 -/
def parse (value : Bytes) : Exec ParsedRawRoutingInformation := do
  -- the parts are sliced behind an assertion of the length
  let raw ← copyFromSlice streamCipherOutputLength value
  let flag := raw.head
  if flag = forwardHop then return parseAsForwardHop raw
  else if flag = finalHop then return parseAsFinalHop raw
  else fail .invalidRouting s!"tried to parse unknown routing flag: {flag}"

/-- Pad, decrypt and parse.  SRC: sphinx/src/header/routing/nodes.rs:159-165 -/
def unwrap (value : EncryptedRoutingInformation) (key : Arr streamCipherKeySize) :
    Exec ParsedRawRoutingInformation := do
  parse (← decrypt C (← addZeroPadding value) key)

end EncryptedRoutingInformation

namespace FinalRoutingInformation

/-- The most room that a destination is given.  SRC: sphinx/src/header/routing/destination.rs:57-59
-/
def maxDestinationLength (routeLen : ℕ) : Exec ℕ := do
  let unused ← sub maxPathLength routeLen
  return (3 * unused + 2) * securityParameter

/-- The room that the hops before the last one leave.
SRC: sphinx/src/header/routing/destination.rs:61-64 -/
def maxPaddedDestinationIdentifierLength (routeLen : ℕ) : Exec ℕ := do
  sub encryptedRoutingInfoSize (fillerStepSizeIncrease * (← sub routeLen 1))

/-- `FinalRoutingInformation::new` and `add_padding`.
SRC: sphinx/src/header/routing/destination.rs:46-85 -/
def addPadding {R : Type} [Rng R] (dest : Destination) (routeLen : ℕ) (rng : R) : Exec Bytes := do
  let limit ← maxDestinationLength routeLen
  assert (destinationAddressLength ≤ limit)
  let padded ← sub encryptedRoutingInfoSize (fillerStepSizeIncrease * (← sub routeLen 1))
  let paddingLength ← sub padded finalNodeMetaInfoLength
  return finalHop :: (version ++ dest.address.toList ++ dest.identifier.toList ++
    (genBytes paddingLength rng).1)

/-- The padded bytes under the front of the last hop's keystream.
SRC: sphinx/src/header/routing/destination.rs:94-116 -/
def encrypt (value : Bytes) (key : Arr streamCipherKeySize) (routeLen : ℕ) : Exec Bytes := do
  assert ((← maxPaddedDestinationIdentifierLength routeLen) = value.length)
  xor value (← sliceTo (hopKeystream C key) value.length)

/-- Append the filler.  SRC: sphinx/src/header/routing/destination.rs:128-147 -/
def combineWithFiller (value filler : Bytes) (routeLen : ℕ) : Exec EncryptedRoutingInformation := do
  assert (filler.length = fillerStepSizeIncrease * (← sub routeLen 1))
  copyFromSlice encryptedRoutingInfoSize (value ++ filler)

end FinalRoutingInformation

namespace EncapsulatedRoutingInformation

/-- The routing information of the last hop.  SRC: sphinx/src/header/routing/mod.rs:103-115 -/
def forFinalHop {R : Type} [Rng R] (dest : Destination) (routingKeys : RoutingKeys)
    (filler : Bytes) (routeLen : ℕ) (rng : R) : Exec EncapsulatedRoutingInformation := do
  let padded ← FinalRoutingInformation.addPadding dest routeLen rng
  let encrypted ← FinalRoutingInformation.encrypt C padded routingKeys.streamCipherKey routeLen
  let combined ← FinalRoutingInformation.combineWithFiller encrypted filler routeLen
  return combined.encapsulateWithMac C routingKeys.headerIntegrityHmacKey

/-- The body of the fold: the next hop's routing information becomes the one of the hop that has
the keys.  SRC: sphinx/src/header/routing/mod.rs:139-148 -/
def forwardStep (next : EncapsulatedRoutingInformation)
    (hop : (Arr nodeAddressLength × RoutingKeys) × Delay) :
    Exec EncapsulatedRoutingInformation := do
  let encrypted ← RoutingInformation.encrypt C
    (RoutingInformation.concatenateComponents hop.1.1 hop.2 next) hop.1.2.streamCipherKey
  return encrypted.encapsulateWithMac C hop.1.2.headerIntegrityHmacKey

/-- The routing information of the first hop, built from the last hop back.
SRC: sphinx/src/header/routing/mod.rs:117-150 -/
def forForwardHops (destinationInfo : EncapsulatedRoutingInformation) (delays : List Delay)
    (route : List Node) (routingKeys : List RoutingKeys) :
    Exec EncapsulatedRoutingInformation := do
  let keys := routingKeys.take (← sub routingKeys.length 1)
  let delays := delays.take (← sub delays.length 1)
  ((((route.drop 1).map Node.address).zip keys).zip delays).reverse.foldlM (forwardStep C)
    destinationInfo

/-- The routing information of a route.  SRC: sphinx/src/header/routing/mod.rs:77-101 -/
def new {R : Type} [Rng R] (route : List Node) (destination : Destination) (delays : List Delay)
    (routingKeys : List RoutingKeys) (filler : Bytes) (rng : R) :
    Exec EncapsulatedRoutingInformation := do
  assert (route.length = routingKeys.length)
  assert (delays.length = route.length)
  match routingKeys.getLast? with
  | none => .error .panic
  | some finalKeys => do
      let destinationInfo ← forFinalHop C destination finalKeys filler route.length rng
      forForwardHops C destinationInfo delays route routingKeys

/-- The MAC, and the routing information behind it.  SRC: sphinx/src/header/routing/mod.rs:152-159
-/
def toBytes (info : EncapsulatedRoutingInformation) : Bytes :=
  info.integrityMac.toList ++ info.encRoutingInformation.toList

/-- Bytes of the right length are cut in two.  SRC: sphinx/src/header/routing/mod.rs:161-192 -/
def fromBytes (bytes : Bytes) : Exec EncapsulatedRoutingInformation := do
  let expected := headerIntegrityMacSize + encryptedRoutingInfoSize
  if bytes.length ≠ expected then
    let length := bytes.length
    fail .invalidRouting
      s!"tried to recover routing information using {length} bytes, expected {expected}"
  else do
    let mac ← copyFromSlice headerIntegrityMacSize (← sliceTo bytes headerIntegrityMacSize)
    let info ← copyFromSlice encryptedRoutingInfoSize (← sliceFrom bytes headerIntegrityMacSize)
    return ⟨info, mac⟩

end EncapsulatedRoutingInformation

/-! ## Headers -/

/-- A header: the shared secret, and the routing information.  SRC: sphinx/src/header/mod.rs:39-42
-/
structure SphinxHeader where
  sharedSecret : PublicKey
  routingInfo : EncapsulatedRoutingInformation
  deriving DecidableEq

/-- What a node makes of a header.  SRC: sphinx/src/header/mod.rs:44-47 -/
inductive ProcessedHeader
  | forwardHop (header : SphinxHeader) (nextHopAddress : Arr nodeAddressLength) (delay : Delay)
      (payloadKey : Arr payloadKeySize)
  | finalHop (destination : Arr destinationAddressLength) (identifier : Arr identifierLength)
      (payloadKey : Arr payloadKeySize)

namespace SphinxHeader

/-- The header for a route, and the payload keys of its nodes.  SRC: sphinx/src/header/mod.rs:52-80
-/
def new {R : Type} [Rng R] (initialSecret : PrivateKey C) (route : List Node)
    (delays : List Delay) (destination : Destination) (rng : R) :
    Exec (SphinxHeader × List (Arr payloadKeySize)) := do
  let keyMaterial := KeyMaterial.derive C route initialSecret
  let forwardKeys ← sliceTo keyMaterial.routingKeys (← sub route.length 1)
  let fillerString ← Filler.new C forwardKeys
  let routingInfo ← EncapsulatedRoutingInformation.new C route destination delays
    keyMaterial.routingKeys fillerString rng
  return (⟨keyMaterial.initialSharedSecret, routingInfo⟩,
    keyMaterial.routingKeys.map RoutingKeys.payloadKey)

/-- The keys that a node derives from the shared secret.  SRC: sphinx/src/header/mod.rs:142-148 -/
def computeRoutingKeys (sharedSecret : PublicKey) (nodeSecretKey : PrivateKey C) : RoutingKeys :=
  RoutingKeys.derive C (nodeSecretKey.diffieHellman sharedSecret)

/-- The shared secret for the next node.  SRC: sphinx/src/header/mod.rs:236-245 -/
def blindTheSharedSecret (sharedSecret : PublicKey) (blindingFactor : Arr blindingFactorSize) :
    PublicKey :=
  let blinder : PrivateKey C := ⟨C.fromBytesModOrder blindingFactor⟩
  blinder.diffieHellman sharedSecret

/-- Verify the MAC, unwrap the routing information, and blind the shared secret.
SRC: sphinx/src/header/mod.rs:150-196 -/
def process (header : SphinxHeader) (nodeSecretKey : PrivateKey C) : Exec ProcessedHeader := do
  let routingKeys := computeRoutingKeys C header.sharedSecret nodeSecretKey
  if !header.routingInfo.integrityMac.verify C routingKeys.headerIntegrityHmacKey
      header.routingInfo.encRoutingInformation.toList then
    fail .invalidHeader "failed to verify integrity MAC"
  else do
    match ← header.routingInfo.encRoutingInformation.unwrap C routingKeys.streamCipherKey with
    | .forwardHop nextHopAddress delay newRoutingInfo =>
        let newSharedSecret := blindTheSharedSecret C header.sharedSecret
          routingKeys.blindingFactor
        return .forwardHop ⟨newSharedSecret, newRoutingInfo⟩ nextHopAddress delay
          routingKeys.payloadKey
    | .finalHop destination identifier =>
        return .finalHop destination identifier routingKeys.payloadKey

/-- `result.unwrap()` -/
def orPanic {α : Type} : Exec α → Exec α
  | .ok a => .ok a
  | .error _ => .error .panic

/-- The same with keys and a blinded secret that were derived before.  Routing information that
cannot be unwrapped is a panic here.  SRC: sphinx/src/header/mod.rs:88-139 -/
def processWithDerivedKeys (header : SphinxHeader) (newBlindedSecret : Option PublicKey)
    (routingKeys : RoutingKeys) : Exec ProcessedHeader := do
  if !header.routingInfo.integrityMac.verify C routingKeys.headerIntegrityHmacKey
      header.routingInfo.encRoutingInformation.toList then
    fail .invalidHeader "failed to verify integrity MAC"
  else do
    match ← orPanic
        (header.routingInfo.encRoutingInformation.unwrap C routingKeys.streamCipherKey) with
    | .forwardHop nextHopAddress delay newRoutingInfo =>
        match newBlindedSecret with
        | some newBlindedSecret =>
            return .forwardHop ⟨newBlindedSecret, newRoutingInfo⟩ nextHopAddress delay
              routingKeys.payloadKey
        | none =>
            fail .invalidHeader "tried to process forward hop without blinded secret"
    | .finalHop destination identifier =>
        return .finalHop destination identifier routingKeys.payloadKey

/-- The shared secret, and the routing information behind it.  SRC: sphinx/src/header/mod.rs:198-205
-/
def toBytes (header : SphinxHeader) : Bytes :=
  header.sharedSecret.toList ++ header.routingInfo.toBytes

/-- Bytes of the right length are cut in two.  SRC: sphinx/src/header/mod.rs:207-234 -/
def fromBytes (bytes : Bytes) : Exec SphinxHeader := do
  if bytes.length ≠ headerSize then
    let length := bytes.length
    fail .invalidHeader s!"tried to recover using {length} bytes, expected {headerSize}"
  else do
    let sharedSecret ← copyFromSlice 32 (← sliceTo bytes 32)
    let routingInfo ← EncapsulatedRoutingInformation.fromBytes (← sliceFrom bytes 32)
    return ⟨sharedSecret, routingInfo⟩

end SphinxHeader

end Eror.Model.Sphinx
