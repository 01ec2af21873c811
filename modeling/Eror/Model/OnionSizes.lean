import Eror.Model.CreateOnion
import Eror.Model.EcPrimitives
import Eror.Model.SphinxPacket

/-!
# The program that prints onion sizes

examples/onion_sizes.rs: for each of seven payload sizes an onion and a Sphinx packet are made
for a path of the given length, and the lengths of both are printed in a line of a table.

Keys, addresses and everything else are drawn anew for each onion, so each gets a state of the
source of randomness of its own.  The addresses are collected from a hash map, whose order is its
own; `order` puts the addresses in that order.
-/

set_option autoImplicit false

namespace Eror.Model

open Library

variable {R : Type} [Rng R]

/-! ## Onions -/

/-- One round of the loop that makes keys.  An address is among the keys of the map once.
SRC: examples/onion_sizes.rs:9-13 -/
def insertKey (E : EcCrates R) (s : (Pki E.ecPrimitives × List Address) × R) :
    (Pki E.ecPrimitives × List Address) × R :=
  let (address, rng) := genAddress s.2
  let ((_, pk), rng) := E.generateKeypair rng
  let (old, pki) := s.1.1.insert address pk
  ((pki, if old.isSome then s.1.2 else s.1.2 ++ [address]), rng)

/-- The key store after `count` insertions, and the addresses that are in it.
SRC: examples/onion_sizes.rs:8-13 -/
def insertKeys (E : EcCrates R) (count : ℕ) (rng : R) :
    (Pki E.ecPrimitives × List Address) × R :=
  (insertKey E)^[count] ((Pki.new E.ecPrimitives, []), rng)

/-- `2 * path_lengths` wraps where overflows are not checked.  Where they are, it panics at once,
and otherwise soon after: then there are fewer addresses than the path has hops.
SRC: examples/onion_sizes.rs:4-30 -/
def generateOnion (E : EcCrates R) (order : List Address → List Address) (pathLengths : UInt32)
    (payloadSize : ℕ) (rng : R) : Exec (Onion E.ecPrimitives) := do
  let ((pki, keys), rng) := insertKeys E (2 * pathLengths).toNat rng
  let addresses := order keys
  let format : OnionFormat E.ecPrimitives := ⟨pathLengths, pki⟩
  let payload := List.replicate payloadSize 0
  let pathLengths := pathLengths.toNat
  let ((onion, _), _) ← orPanic <| Except.toOption <| do
    if addresses.length < pathLengths then .error .panic
    else format.formOnion (addresses.take pathLengths) (addresses.drop pathLengths) payload rng
  return onion

/-! ## Sphinx packets -/

/-- One round of the iterator over the nodes.  SRC: examples/onion_sizes.rs:48-54 -/
def generateSphinxNode (S : Sphinx.Crates) (s : List Sphinx.Node × R) : List Sphinx.Node × R :=
  let address : Sphinx.Arr Sphinx.nodeAddressLength :=
    Sphinx.Arr.of (genBytes Sphinx.nodeAddressLength s.2).1 (genBytes_length _ _)
  let rng := (genBytes Sphinx.nodeAddressLength s.2).2
  let secretKey : Sphinx.PrivateKey S := Sphinx.PrivateKey.new rng
  let rng := (genBytes 32 rng).2
  (s.1 ++ [⟨address, secretKey.publicKey⟩], rng)

/-- A SURB is assumed to have the length of a header.  SRC: examples/onion_sizes.rs:41-45 -/
def sphinxSurbSize (_pathLen : ℕ) : ℕ := Sphinx.headerSize

/-- A Sphinx packet for a route of random nodes, with room for a SURB.
SRC: examples/onion_sizes.rs:32-71 -/
def generateSphinxOnion (S : Sphinx.Crates) (pathLength payloadSize : ℕ) (rng : R) :
    Exec Sphinx.SphinxPacket := do
  let (route, rng) := (generateSphinxNode S)^[2 * pathLength] ([], rng)
  let delays : List Sphinx.Delay := List.replicate (2 * pathLength) 0
  let destination : Sphinx.Destination :=
    ⟨Sphinx.Arr.of (genBytes _ rng).1 (genBytes_length _ _),
      Sphinx.Arr.of (genBytes _ (genBytes Sphinx.destinationAddressLength rng).2).1
        (genBytes_length _ _)⟩
  let rng := (genBytes Sphinx.identifierLength (genBytes Sphinx.destinationAddressLength rng).2).2
  let surbSize := sphinxSurbSize pathLength
  let size := payloadSize + surbSize + Sphinx.payloadOverheadSize
  let payload := List.replicate (payloadSize + surbSize) 0
  orPanic (Sphinx.SphinxPacket.buildPacket S size none payload (route.take pathLength) destination
    (delays.take pathLength) rng).toOption

/-! ## The table -/

/-- `{:<width}` -/
def alignLeft (width : ℕ) (text : String) : String :=
  text ++ String.ofList (List.replicate (width - text.length) ' ')

/-- One line of the table.  SRC: examples/onion_sizes.rs:89-95 -/
def sizesLine (pathLength payloadSize : String) (serialized sphinxSize : String) : String :=
  alignLeft 11 pathLength ++ " | " ++ alignLeft 20 payloadSize ++ " | " ++
    alignLeft 23 serialized ++ " | " ++ alignLeft 25 sphinxSize

/-- What is printed for one payload size.  SRC: examples/onion_sizes.rs:75-96 -/
def sizesRound (E : EcCrates R) (S : Sphinx.Crates) (order : List Address → List Address)
    (pathLength : UInt32) (payloadSize : ℕ) (rng : R × R) : Exec String := do
  let onion ← generateOnion E order pathLength payloadSize rng.1
  let serialized := onion.serialize
  let sphinxSize ← if pathLength.toNat ≤ Sphinx.maxPathLength then do
      let sphinxOnion ← generateSphinxOnion S pathLength.toNat payloadSize rng.2
      pure (toString sphinxOnion.toBytes.length)
    else pure "---"
  return sizesLine (toString pathLength.toNat) (toString payloadSize)
    (toString serialized.length) sphinxSize

/-- The payload sizes that are compared.  SRC: examples/onion_sizes.rs:75 -/
def payloadSizes : List ℕ := [0, 128, 256, 512, 1024, 2048, 4096]

/-- The program behind the parsing of its argument: the lines of the table.
SRC: examples/onion_sizes.rs:73-98 -/
def onionSizes (E : EcCrates R) (S : Sphinx.Crates) (order : List Address → List Address)
    (pathLength : UInt32) (rng : ℕ → R × R) : Exec (List String) :=
  payloadSizes.mapM fun payloadSize =>
    sizesRound E S order pathLength payloadSize (rng payloadSize)

end Eror.Model
