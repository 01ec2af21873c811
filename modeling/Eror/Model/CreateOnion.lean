import Eror.Interface.Network
import Eror.Model.EcPrimitives

/-!
# The program that simulates a circuit

examples/create_onion.rs: keys are generated and put into the key store and into a table of
private keys, an onion is formed, and a loop processes it at one node after the other until the
original sender has read the reply.  The tests of src/lib.rs set up their keys in the same way.

`keygen` stands for `generate_keypair` of the primitives in use.  The program uses
`EcPrimitives` (`programTables`).
-/

set_option autoImplicit false

namespace Eror.Model

open Library

variable {R : Type} {P : Primitives R}

namespace Pki

/-- An empty key store.  SRC: src/pki.rs:27-29 -/
def new (P : Primitives R) : Pki P := ⟨fun _ => none⟩

/-- The key that was there before is returned.  SRC: src/pki.rs:40-42 -/
def insert (pki : Pki P) (address : Address) (key : P.PublicKey) : Option P.PublicKey × Pki P :=
  (pki.keys address, ⟨fun a => if a = address then some key else pki.keys a⟩)

end Pki

/-- The key store, and the table of private keys beside it. -/
structure KeyTables (P : Primitives R) where
  pki : Pki P
  privateKeys : Address → Option P.PrivateKey

/-- `rand::thread_rng().gen()` -/
def genAddress [Rng R] (rng : R) : Address × R :=
  (⟨(genBytes addressLength rng).1, genBytes_length addressLength rng⟩,
    (genBytes addressLength rng).2)

/-- One round of the loop that makes keys.  SRC: examples/create_onion.rs:10-13,
src/lib.rs:792-797 -/
def generateNode [Rng R] (keygen : R → (P.PrivateKey × P.PublicKey) × R)
    (s : KeyTables P × R) : KeyTables P × R :=
  let (address, rng) := genAddress s.2
  let ((sk, pk), rng) := keygen rng
  let (_, pki) := s.1.pki.insert address pk
  (⟨pki, fun a => if a = address then some sk else s.1.privateKeys a⟩, rng)

/-- Keys for `n` nodes at random addresses, in tables that were empty.
SRC: examples/create_onion.rs:8-14, src/lib.rs:786-799 -/
def keysetup [Rng R] (keygen : R → (P.PrivateKey × P.PublicKey) × R) (n : ℕ) (rng : R) :
    KeyTables P × R :=
  (generateNode keygen)^[n] (⟨Pki.new P, fun _ => none⟩, rng)

/-- The tables that the setup of the program makes, in `nodes` rounds.
SRC: examples/create_onion.rs:7-14 -/
def programTables [Rng R] (C : EcCrates R) (nodes : ℕ) (seed : R) : KeyTables C.ecPrimitives :=
  (keysetup (P := C.ecPrimitives) C.generateKeypair nodes seed).1

/-- One round of the loop over the nodes: what is printed, and the onion and the address that
come next.  SRC: examples/create_onion.rs:33-74 -/
def mixRound (F : OnionFormat P) (privateKeys : Address → Option P.PrivateKey)
    (expected : ExpectedResponse P) (reply : Bytes) (current : Flight P) :
    Exec (Outcome × Option (Flight P)) := do
  let privateKey ← orPanic (privateKeys current.node)
  match ← F.procOnion privateKey (onlyExpected expected) current.onion with
  | .hop nextAddress nextOnion => return (.hop nextAddress, some ⟨nextAddress, nextOnion⟩)
  | .sender payload => return (.sender payload, none)
  | .receiver payload => do
      let (onion, address) ← F.replyOnion privateKey current.onion reply
      return (.receiver payload address, some ⟨address, onion⟩)

/-- The loop over the nodes. -/
def mixLoop (F : OnionFormat P) (privateKeys : Address → Option P.PrivateKey)
    (expected : ExpectedResponse P) (reply : Bytes) : Machine (Flight P) Outcome Fault where
  step := mixRound F privateKeys expected reply

/-- The program behind the setup of its keys, as far as `n` rounds of its loop: what is printed,
and whether the loop has been left.  SRC: examples/create_onion.rs:17-75 -/
def createOnion [Rng R] (limit : UInt32) (tables : KeyTables P) (fwd bwd : List Address)
    (payload reply : Bytes) (n : ℕ) (rng : R) : Exec (List Outcome × Option (Flight P)) := do
  let F : OnionFormat P := ⟨limit, tables.pki⟩
  let ((onion, expected), _) ← F.formOnion fwd bwd payload rng
  let first ← orPanic fwd.head?
  (mixLoop F tables.privateKeys expected reply).run n ⟨first, onion⟩

end Eror.Model
