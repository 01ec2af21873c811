import Eror.Analysis.OnionLayers
import Eror.Analysis.ProcessRoles
import Eror.Interface.Network

/-!
# The circuit that an onion travels

What a run over the network looks like when the onions are taken apart into their fronts and
their backward sections.  The fronts are fixed once the onion is formed: they are the legs of
the circuit.  Only the backward section depends on what the adversary does.  `circuit` is the
machine that passes from stop to stop and keeps nothing but the place and the backward
section, and `circuit_simulates` says that the network does what it does, as long as every stop
serves the leg behind it.
-/

set_option autoImplicit false

namespace Eror.Analysis

open Library Model

variable {R : Type} {P : Primitives R} {w : ℕ}

/-! ## Views -/

/-- A flight, taken apart. -/
structure View (P : Primitives R) where
  node : Address
  front : Front
  backward : Backward P

/-- The view of an onion in flight. -/
def view (fl : Flight P) : View P := ⟨fl.node, front fl.onion, fl.onion.backward⟩

/-- An event, taken apart. -/
structure Sight (P : Primitives R) where
  received : View P
  outcome : Outcome
  sent : Option (View P)

/-- What a turn looks like on the links. -/
def sight (e : Event P) : Sight P := ⟨view e.received, e.outcome, e.sent.map view⟩

/-! ## Stops -/

/-- What a node in the middle of the circuit is there for. -/
inductive Task
  | relay
  | deliver (payload : Bytes)

/-- A node in the middle of the circuit. -/
structure Stop (P : Primitives R) where
  leg : Leg P
  task : Task

/-- The end of the circuit, where the sender opens the reply. -/
structure Home (P : Primitives R) where
  leg : Leg P
  layers : List P.SymmetricKey
  key : P.SymmetricKey

/-- What the node of a stop reports, when the onion goes on to `next`. -/
def Task.outcome (next : Address) : Task → Outcome
  | .relay => .hop next
  | .deliver payload => .receiver payload next

/-- The backward section that the node of a stop sends for the one it received. -/
def Stop.onward (reply : Bytes) (s : Stop P) (b : Backward P) : Backward P :=
  match s.task with
  | .relay => peelBackward P s.leg.key b
  | .deliver _ => aeEnc P s.leg.key (peelBackward P s.leg.key b).2 reply

/-- The leg that arrives at the next stop, or at the end of the circuit. -/
def nextLeg (home : Home P) (stops : List (Stop P)) : Leg P :=
  (stops.head?.map Stop.leg).getD home.leg

/-- The place on the circuit: the link that is crossed next, the stops ahead, and the backward
section that was sent over the link. -/
structure Progress (P : Primitives R) where
  link : ℕ
  stops : List (Stop P)
  backward : Backward P

/-- The machine that passes from stop to stop. -/
def circuit (home : Home P) (expectedTag : Bytes → Option P.Tag) (reply : Bytes)
    (adv : Tampering P) : Machine (Progress P) (Sight P) Fault where
  step st :=
    let b := (adv st.link).getD st.backward
    match st.stops with
    | [] => do
        let payload ← openReply P home.key (expectedTag home.leg.front.blocks.flatten)
          (coverAll (coverBackward P) home.layers b)
        return (⟨⟨home.leg.node, home.leg.front, b⟩, .sender payload, none⟩, none)
    | s :: stops =>
        let next := nextLeg home stops
        .ok (⟨⟨s.leg.node, s.leg.front, b⟩, s.task.outcome next.node,
            some ⟨next.node, next.front, s.onward reply b⟩⟩,
          some ⟨st.link + 1, stops, s.onward reply b⟩)

/-! ## The network follows the circuit -/

/-- The node of a stop turns the onion it receives into the next leg. -/
def Stop.Serves (net : Network P) (s : Stop P) (next : Leg P) : Prop :=
  match s.task with
  | .relay => Link net.format net.privateKey s.leg next
  | .deliver payload => ∃ f', FrontStep net.format (net.privateKey s.leg.node) s.leg.front
      s.leg.key ⟨.receiver, next.node⟩ f' ∧
    net.format.splitReplyHeader f'.forward = .ok (next.front.blocks.map .raw, payload) ∧
    next.front.forward = P.prng (P.deriveKey .prng s.leg.key)
      (List.replicate s.leg.front.forward.length 0)

/-- The node at the end of the circuit is the sender of the onion. -/
def Home.Serves (net : Network P) (home : Home P) : Prop :=
  ∃ hopMeta f', hopMeta.role = .sender ∧ FrontStep net.format (net.privateKey home.leg.node)
      home.leg.front home.leg.key hopMeta f' ∧
    home.layers = layerKeys P home.leg.key (wrappingSub 64 (counters hopMeta).2 1) ∧
    home.key = replyKey P home.leg.key (counters hopMeta).1

/-- Every stop serves the leg behind it, and the end of the circuit is served. -/
def Served (net : Network P) (home : Home P) : List (Stop P) → Prop
  | [] => home.Serves net
  | s :: stops => s.Serves net (nextLeg home stops) ∧ Served net home stops

variable {net : Network P} {home : Home P}

/-- A node that serves a stop does there what the stop is for.  SRC: src/lib.rs:582-611, 697-736 -/
theorem node_of_serves {s : Stop P} {next : Leg P} (h : s.Serves net next) (fl : Flight P)
    (hnode : fl.node = s.leg.node) (hfront : front fl.onion = s.leg.front) :
    net.node fl = .ok ⟨fl, s.task.outcome next.node,
      some ⟨next.node, next.front.onion (s.onward net.reply fl.onion.backward)⟩⟩ := by
  obtain ⟨leg, task⟩ := s
  rw [Network.node_eq]
  rw [hnode]
  cases task with
  | relay =>
      have hopen := h fl.onion hfront
      rw [procOnion_of_hop hopen rfl]
      rfl
  | deliver payload =>
      obtain ⟨f', hstep, hsplit, hforward⟩ := h
      have hopen := hstep fl.onion hfront
      have hlen : fl.onion.forward.length = leg.front.forward.length :=
        congrArg (fun f => f.forward.length) hfront
      have hsplit' : net.format.splitReplyHeader
          (f'.onion (peelBackward P leg.key fl.onion.backward)).forward =
            .ok (next.front.blocks.map .raw, payload) := hsplit
      rw [procOnion_of_receiver hopen rfl, hsplit', ok_bind]
      change (net.format.replyOnion _ fl.onion net.reply >>= fun r => _) = _
      rw [replyOnion_of_receiver hopen rfl, hsplit', ok_bind, hlen, ← hforward]
      rfl

/-- The sender opens the reply with the keys it derives.  SRC: src/lib.rs:714-734 -/
theorem node_of_home (hw : P.tagCodec.FixedWidth w) (h : home.Serves net) (fl : Flight P)
    (hnode : fl.node = home.leg.node) (hfront : front fl.onion = home.leg.front) :
    net.node fl = (do
      let payload ← openReply P home.key (net.expectedTag home.leg.front.blocks.flatten)
        (coverAll (coverBackward P) home.layers fl.onion.backward)
      return ⟨fl, .sender payload, none⟩) := by
  obtain ⟨hopMeta, f', hrole, hstep, hlayers, hkey⟩ := h
  have hopen := hstep fl.onion hfront
  have hidentifier : fl.onion.packedHeader = home.leg.front.blocks.flatten := by
    rw [← hfront]
    exact List.flatMap_def
  rw [Network.node_eq]
  rw [hnode, OnionFormat.procOnion_eq, procOnionMetered_of_sender hw hopen hrole, hidentifier,
    ← hlayers, ← hkey]
  cases openReply P home.key (net.expectedTag home.leg.front.blocks.flatten)
    (coverAll (coverBackward P) home.layers fl.onion.backward) <;> rfl

/-- The onion in flight is where the circuit says, and shows what the circuit says. -/
def Follows (net : Network P) (home : Home P) (st : Progress P) (s : ℕ × Flight P) : Prop :=
  s.1 = st.link ∧
    view s.2 = ⟨(nextLeg home st.stops).node, (nextLeg home st.stops).front, st.backward⟩ ∧
    Served net home st.stops

/-- The adversary changes what is seen of the backward section only. -/
theorem view_tamper (backward : Option (Backward P)) (fl : Flight P) :
    view (Network.tamper backward fl) =
      ⟨fl.node, front fl.onion, backward.getD fl.onion.backward⟩ := rfl

/-- **The network does what the circuit does**, whatever the adversary puts on the links. -/
theorem circuit_simulates (hw : P.tagCodec.FixedWidth w) (net : Network P) (home : Home P)
    (adv : Tampering P) :
    (circuit home net.expectedTag net.reply adv).Simulates (net.machine adv) sight
      (Follows net home) where
  step_ok := by
    rintro ⟨link, stops, backward⟩ ⟨link', fl⟩ d a' ⟨hlink, hview, hserved⟩ hstep
    obtain rfl : link' = link := hlink
    obtain ⟨hnode, hfront, rfl⟩ := View.mk.inj hview
    cases stops with
    | nil =>
        have hturn := node_of_home hw hserved (Network.tamper (adv link') fl) hnode hfront
        obtain ⟨payload, hopen, hd⟩ := bind_eq_ok.mp hstep
        cases hd
        have hevent : net.node (Network.tamper (adv link') fl) =
            .ok ⟨Network.tamper (adv link') fl, .sender payload, none⟩ :=
          hturn.trans (bind_eq_ok.mpr ⟨payload, hopen, rfl⟩)
        refine ⟨_, none, bind_eq_ok.mpr ⟨_, hevent, rfl⟩, ?_, .none⟩
        rw [sight, view_tamper, hnode, hfront]
        rfl
    | cons s stops =>
        have hevent := node_of_serves hserved.1 (Network.tamper (adv link') fl) hnode hfront
        cases hstep
        refine ⟨_, some _, bind_eq_ok.mpr ⟨_, hevent, rfl⟩, ?_, .some ⟨rfl, ?_, hserved.2⟩⟩
        · rw [sight, view_tamper, hnode, hfront, Option.map_some, view, front_onion]
          rfl
        · rw [view, front_onion]
          rfl
  step_error := by
    rintro ⟨link, stops, backward⟩ ⟨link', fl⟩ fault ⟨hlink, hview, hserved⟩ hstep
    obtain rfl : link' = link := hlink
    obtain ⟨hnode, hfront, rfl⟩ := View.mk.inj hview
    cases stops with
    | nil =>
        have hturn := node_of_home hw hserved (Network.tamper (adv link') fl) hnode hfront
        have hfault : net.node (Network.tamper (adv link') fl) = .error fault := by
          rw [hturn]
          exact bind_eq_error hstep
        change (net.node _ >>= fun event => _) = _
        rw [hfault, error_bind]
    | cons s stops => cases hstep

end Eror.Analysis
