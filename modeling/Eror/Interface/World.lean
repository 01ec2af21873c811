import Eror.Interface.Network
import Eror.Library.Pool

/-!
# Many onions at once

The world that an adversary schedules: senders form onions at any time, every onion in flight is
a machine of a pool, and in any order one of them takes a turn at the node where it is.  Beside
the onions, the senders' `dbinfo` is all that is kept between turns: `proc_onion` is handed a
lookup in it.  An entry is made under the address of the sender, which is the last hop of the
backward path, when it forms an onion, and replaces one with the same identifier.

The adversary may put any onion before any node, one that was seen before included.  It takes one
from the network by never giving it another turn, and changes one by doing both.
-/

set_option autoImplicit false

namespace Eror.Model

open Library

variable {R : Type} {P : Primitives R}

/-- An onion in flight, with the number of links it has crossed. -/
abbrev FlightSlot (P : Primitives R) := Slot (ℕ × Flight P) (Event P) Fault

/-- What all nodes keep, and the onions in flight. -/
structure World (P : Primitives R) where
  dbinfo : Address → Bytes → Option P.Tag
  slots : List (FlightSlot P)

/-- No onion has been formed. -/
def World.init (P : Primitives R) : World P := ⟨fun _ _ => none, []⟩

/-- What can happen. -/
inductive Action (R : Type) (P : Primitives R)
  /-- A sender forms an onion and sends it to the first hop. -/
  | send (fwd bwd : List Address) (payload : Bytes) (rng : R)
  /-- The adversary puts an onion before a node. -/
  | inject (node : Address) (onion : Onion P)
  /-- The node at which the onion is processes it, and answers with `reply` if it is the
  receiver. -/
  | turn (i : ℕ) (reply : Bytes)

namespace World

variable (F : OnionFormat P) (sk : Address → P.PrivateKey)

/-- What `send` obtains: the onion on its way, the address of the sender, and what it keeps in
`dbinfo`.  SRC: src/lib.rs:239-253 -/
def sent [Rng R] (fwd bwd : List Address) (payload : Bytes) (rng : R) :
    Option (Flight P × Address × ExpectedResponse P) :=
  match F.formOnion fwd bwd payload rng, fwd.head?, bwd.getLast? with
  | .ok ((o, expected), _), some first, some home => some (⟨first, o⟩, home, expected)
  | _, _, _ => none

/-- The nodes at one moment, as the node at the address `a` is concerned. -/
def network (w : World P) (a : Address) (reply : Bytes) : Network P :=
  ⟨F, sk, w.dbinfo a, reply⟩

/-- One step of an onion in flight. -/
def turnMachine (w : World P) (reply : Bytes) : Machine (ℕ × Flight P) (Event P) Fault where
  step s := ((network F sk w s.2.node reply).machine (noTampering P)).step s

/-- The entry that is made in `dbinfo`. -/
def record (dbinfo : Address → Bytes → Option P.Tag) (home : Address)
    (expected : ExpectedResponse P) : Address → Bytes → Option P.Tag := fun a identifier =>
  if a = home ∧ identifier = expected.identifier then some expected.tag else dbinfo a identifier

/-- What an action does to the pool of onions. -/
def poolAction [Rng R] (w : World P) :
    Action R P → Option (PoolAction (ℕ × Flight P) (Event P) Fault)
  | .send fwd bwd payload rng => (sent F fwd bwd payload rng).map fun s => .add (0, s.1)
  | .inject node onion => some (.add (0, ⟨node, onion⟩))
  | .turn i reply => some (.turn i (turnMachine F sk w reply))

/-- What an action does to `dbinfo`. -/
def remember [Rng R] (w : World P) : Action R P → Address → Bytes → Option P.Tag
  | .send fwd bwd payload rng =>
      match sent F fwd bwd payload rng with
      | some (_, home, expected) => record w.dbinfo home expected
      | none => w.dbinfo
  | .inject _ _ => w.dbinfo
  | .turn _ _ => w.dbinfo

/-- What an action does to the world: the senders remember, and the slots take turns. -/
def step [Rng R] (w : World P) (a : Action R P) : World P where
  dbinfo := remember F w a
  slots := runPool w.slots (poolAction F sk w a).toList

/-- The world after a list of actions. -/
def run [Rng R] (w : World P) (actions : List (Action R P)) : World P :=
  actions.foldl (step F sk) w

end World

/-- The replies that the turns of one onion are taken with, in their order. -/
def repliesOf (i : ℕ) : List (Action R P) → List Bytes
  | [] => []
  | .turn j reply :: actions =>
      if j = i then reply :: repliesOf i actions else repliesOf i actions
  | .send _ _ _ _ :: actions => repliesOf i actions
  | .inject _ _ :: actions => repliesOf i actions

/-- Nothing that is sent in these actions takes the entry for `expected` from the sender at
`home`: another onion with the same identifier expects the same tag. -/
def Undisturbed [Rng R] (F : OnionFormat P) (home : Address) (expected : ExpectedResponse P)
    (actions : List (Action R P)) : Prop :=
  ∀ fwd bwd payload rng fl expected', .send fwd bwd payload rng ∈ actions →
    World.sent F fwd bwd payload rng = some (fl, home, expected') →
    expected'.identifier = expected.identifier → expected'.tag = expected.tag

/-! ## Runs of the world -/

namespace World

variable {F : OnionFormat P} {sk : Address → P.PrivateKey}

/-- Without actions nothing happens. -/
@[simp] theorem run_nil [Rng R] (w : World P) : run F sk w [] = w := rfl

/-- The first action comes before the others. -/
@[simp] theorem run_cons [Rng R] (w : World P) (a : Action R P) (actions : List (Action R P)) :
    run F sk w (a :: actions) = run F sk (step F sk w a) actions := rfl

/-- What a run does to the pool of onions. -/
def poolActions [Rng R] (F : OnionFormat P) (sk : Address → P.PrivateKey) :
    World P → List (Action R P) → List (PoolAction (ℕ × Flight P) (Event P) Fault)
  | _, [] => []
  | w, a :: actions => (poolAction F sk w a).toList ++ poolActions F sk (step F sk w a) actions

/-- The slots of the world after a run are a pool that has run. -/
theorem run_slots [Rng R] (w : World P) (actions : List (Action R P)) :
    (run F sk w actions).slots = runPool w.slots (poolActions F sk w actions) := by
  induction actions generalizing w with
  | nil => rfl
  | cons a actions ih =>
      rw [run_cons, ih, poolActions, runPool_append]
      rfl

/-- What every action of a run keeps holds when it has run. -/
theorem run_invariant [Rng R] {I : World P → Prop} {actions : List (Action R P)}
    (hstep : ∀ a ∈ actions, ∀ w, I w → I (step F sk w a)) {w : World P} (h : I w) :
    I (run F sk w actions) := by
  induction actions generalizing w with
  | nil => exact h
  | cons a actions ih =>
      exact ih (fun a' ha' => hstep a' (List.mem_cons_of_mem a ha'))
        (hstep a List.mem_cons_self w h)

/-- INTERNAL: the turns of one onion are taken in worlds with what every action keeps, and with
the replies of the actions. -/
theorem turnsOf_poolActions [Rng R] {I : World P → Prop} {actions : List (Action R P)}
    (hstep : ∀ a ∈ actions, ∀ w, I w → I (step F sk w a)) {w : World P} (h : I w) (i : ℕ) :
    List.Forall₂ (fun M reply => ∃ w', I w' ∧ M = turnMachine F sk w' reply)
      (turnsOf i (poolActions F sk w actions)) (repliesOf i actions) := by
  induction actions generalizing w with
  | nil => exact .nil
  | cons a actions ih =>
      have hrest := ih (fun a' ha' => hstep a' (List.mem_cons_of_mem a ha'))
        (hstep a List.mem_cons_self w h)
      rw [poolActions, turnsOf_append]
      cases a with
      | send fwd bwd payload rng =>
          rw [poolAction]
          cases sent F fwd bwd payload rng <;> exact hrest
      | inject node onion => exact hrest
      | turn j reply =>
          rw [poolAction, Option.toList_some, turnsOf, repliesOf]
          by_cases hj : j = i
          · rw [if_pos hj, if_pos hj]
            exact .cons ⟨w, h, rfl⟩ hrest
          · rw [if_neg hj, if_neg hj]
            exact hrest

end World

end Eror.Model
