import Eror.Interface.OnionShape
import Eror.Library.Simulation

/-!
# A network of nodes and an adversary on its links

Every node processes what it receives with `proc_onion`, sends a relayed onion to the address
it obtains, and, when it is the receiver, sends the reply that `reply_onion` forms to the
address that returns.  Links are numbered in the order in which a run crosses them.  On each
link an adversary may replace the backward section of the onion by any other.
-/

set_option autoImplicit false

namespace Eror.Model

open Library

variable {R : Type} {P : Primitives R}

/-- An onion on its way to a node. -/
structure Flight (P : Primitives R) where
  node : Address
  onion : Onion P

/-- What a node does with an onion. -/
inductive Outcome
  | hop (next : Address)
  | receiver (payload : Bytes) (replyTo : Address)
  | sender (payload : Bytes)
  deriving DecidableEq

/-- One node's turn: what it received, what it made of it, and what it sent. -/
structure Event (P : Primitives R) where
  received : Flight P
  outcome : Outcome
  sent : Option (Flight P)

/-- The backward section that the adversary puts into the onion on a link, if any. -/
abbrev Tampering (P : Primitives R) := ℕ → Option (Backward P)

/-- Nobody touches the onions on the links. -/
def noTampering (P : Primitives R) : Tampering P := fun _ => none

/-- The lookup that answers for the expected identifier only. -/
def onlyExpected (expected : ExpectedResponse P) (identifier : Bytes) : Option P.Tag :=
  if identifier = expected.identifier then some expected.tag else none

/-- The lookup finds the expected identifier. -/
theorem onlyExpected_identifier (expected : ExpectedResponse P) :
    onlyExpected expected expected.identifier = some expected.tag := if_pos rfl

/-- The nodes: a format, a private key for each address, the tags of expected replies, and the
payload that receivers reply with. -/
structure Network (P : Primitives R) where
  format : OnionFormat P
  privateKey : Address → P.PrivateKey
  expectedTag : Bytes → Option P.Tag
  reply : Bytes

namespace Network

variable (net : Network P)

/-- A node receives an onion. -/
def nodeIn (p : Profile) (fl : Flight P) : Exec (Event P) := do
  match ← net.format.procOnionIn p (net.privateKey fl.node) net.expectedTag fl.onion with
  | .hop next onion => return ⟨fl, .hop next, some ⟨next, onion⟩⟩
  | .receiver payload => do
      let (onion, next) ← net.format.replyOnionIn p (net.privateKey fl.node) fl.onion net.reply
      return ⟨fl, .receiver payload next, some ⟨next, onion⟩⟩
  | .sender payload => return ⟨fl, .sender payload, none⟩

@[inherit_doc nodeIn]
def node (fl : Flight P) : Exec (Event P) := net.nodeIn .release fl

/-- A turn in the `release` profile, in terms of what the node runs in that profile. -/
theorem node_eq (fl : Flight P) : net.node fl = do
    match ← net.format.procOnion (net.privateKey fl.node) net.expectedTag fl.onion with
    | .hop next onion => return ⟨fl, .hop next, some ⟨next, onion⟩⟩
    | .receiver payload => do
        let (onion, next) ← net.format.replyOnion (net.privateKey fl.node) fl.onion net.reply
        return ⟨fl, .receiver payload next, some ⟨next, onion⟩⟩
    | .sender payload => return ⟨fl, .sender payload, none⟩ := rfl

/-- The flight with the backward section that is on the link after tampering. -/
def tamper (backward : Option (Backward P)) (fl : Flight P) : Flight P :=
  { fl with onion := { fl.onion with backward := backward.getD fl.onion.backward } }

/-- The network as a machine whose state is a link and the onion that was sent over it. -/
def machineIn (p : Profile) (adv : Tampering P) : Machine (ℕ × Flight P) (Event P) Fault where
  step s := do
    let event ← net.nodeIn p (tamper (adv s.1) s.2)
    return (event, event.sent.map fun fl => (s.1 + 1, fl))

@[inherit_doc machineIn]
def machine (adv : Tampering P) : Machine (ℕ × Flight P) (Event P) Fault :=
  net.machineIn .release adv

end Network

end Eror.Model
