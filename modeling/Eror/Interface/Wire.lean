import Eror.Interface.Network

/-!
# The network on the wire

What the nodes of a network exchange are byte strings.  A node reads an onion from what it
receives, processes it, and writes the onion that it sends.  The adversary who replaces the
backward section of an onion reads and writes the bytes likewise, and lets through what it cannot
read.
-/

set_option autoImplicit false

namespace Eror.Model

open Library

variable {R : Type} {P : Primitives R}

/-- Bytes on their way to a node. -/
structure Packet where
  node : Address
  bytes : Bytes

/-- One node's turn, as it can be seen on the wire. -/
structure WireEvent where
  node : Address
  outcome : Outcome
  sent : Option Packet

/-- The bytes that an onion is sent as. -/
def Flight.packet (fl : Flight P) : Packet := ⟨fl.node, fl.onion.serialize⟩

/-- A turn as it can be seen on the wire. -/
def Event.onWire (e : Event P) : WireEvent :=
  ⟨e.received.node, e.outcome, e.sent.map Flight.packet⟩

namespace Network

variable (net : Network P)

/-- A node receives bytes.  SRC: src/lib.rs:189-218 -/
def wireNodeIn (p : Profile) (packet : Packet) : Exec WireEvent := do
  let onion ← Onion.deserialize packet.bytes
  let event ← net.nodeIn p ⟨packet.node, onion⟩
  return event.onWire

@[inherit_doc wireNodeIn]
def wireNode (p : Packet) : Exec WireEvent := net.wireNodeIn .release p

/-- A turn in the `release` profile reads the bytes and lets the node process the onion. -/
theorem wireNode_eq (p : Packet) : net.wireNode p = do
    let onion ← Onion.deserialize p.bytes
    let event ← net.node ⟨p.node, onion⟩
    return event.onWire := rfl

/-- The bytes that are on the link after tampering. -/
def tamperBytes (P : Primitives R) (backward : Option (Backward P)) (p : Packet) : Packet :=
  match Onion.deserialize (P := P) p.bytes with
  | .ok onion => (tamper backward ⟨p.node, onion⟩).packet
  | .error _ => p

/-- The network as a machine whose state is a link and the bytes that were sent over it. -/
def wireMachine (adv : Tampering P) : Machine (ℕ × Packet) WireEvent Fault where
  step s := do
    let event ← net.wireNode (tamperBytes P (adv s.1) s.2)
    return (event, event.sent.map fun p => (s.1 + 1, p))

end Network

end Eror.Model
