import Eror.Analysis.FormedCircuit

/-!
# Runs around the circuit

A run around the circuit is determined by its stops, except for the backward sections
(`sights_trail`).  These evolve by one layer at each stop, from whatever the adversary puts on
the link (`evolve`).  `Travels.run` puts the two together for the onion that `form_onion`
returned: whatever the adversary does, all stops do what they are there for, and what arrives
at the sender depends on the adversary only through the tag that the receiver reads.
-/

set_option autoImplicit false

namespace Eror.Analysis

open Library Model

variable {R : Type} {P : Primitives R} {w : ℕ}

/-! ## Trails -/

/-- What shows of a turn apart from the backward sections. -/
structure Trail where
  received : Address × Front
  outcome : Outcome
  sent : Option (Address × Front)

/-- The trail of a turn. -/
def trail (e : Event P) : Trail :=
  ⟨(e.received.node, front e.received.onion), e.outcome,
    e.sent.map fun fl => (fl.node, front fl.onion)⟩

/-- The trail that a sight leaves. -/
def Sight.trail (s : Sight P) : Trail :=
  ⟨(s.received.node, s.received.front), s.outcome, s.sent.map fun v => (v.node, v.front)⟩

/-- A turn and its sight leave the same trail. -/
theorem sight_trail (e : Event P) : (sight e).trail = trail e := by
  obtain ⟨received, outcome, sent⟩ := e
  cases sent <;> rfl

/-- The trails that the stops leave. -/
def itinerary (home : Home P) : List (Stop P) → List Trail
  | [] => []
  | s :: stops =>
      ⟨(s.leg.node, s.leg.front), s.task.outcome (nextLeg home stops).node,
        some ((nextLeg home stops).node, (nextLeg home stops).front)⟩ :: itinerary home stops

/-! ## One run around the circuit -/

/-- The backward section that is sent over the link behind the stops, when `b` is sent over the
link in front of them. -/
def evolve (reply : Bytes) (adv : Tampering P) : ℕ → List (Stop P) → Backward P → Backward P
  | _, [], b => b
  | link, s :: stops, b => evolve reply adv (link + 1) stops (s.onward reply ((adv link).getD b))

/-- What shows at the stops. -/
def sights (home : Home P) (reply : Bytes) (adv : Tampering P) :
    ℕ → List (Stop P) → Backward P → List (Sight P)
  | _, [], _ => []
  | link, s :: stops, b =>
      let next := nextLeg home stops
      let b := (adv link).getD b
      ⟨⟨s.leg.node, s.leg.front, b⟩, s.task.outcome next.node,
          some ⟨next.node, next.front, s.onward reply b⟩⟩ ::
        sights home reply adv (link + 1) stops (s.onward reply b)

section Run

variable (home : Home P) (reply : Bytes) (adv : Tampering P)

/-- The circuit passes all of its stops. -/
theorem circuit_run (expectedTag : Bytes → Option P.Tag) (link : ℕ) (stops : List (Stop P))
    (b : Backward P) : (circuit home expectedTag reply adv).run stops.length ⟨link, stops, b⟩ =
      .ok (sights home reply adv link stops b,
        some ⟨link + stops.length, [], evolve reply adv link stops b⟩) := by
  induction stops generalizing link b with
  | nil => rfl
  | cons s stops ih =>
      have hrest := ih (link + 1) (s.onward reply ((adv link).getD b))
      rw [Nat.add_right_comm, Nat.add_assoc] at hrest
      exact Machine.run_succ_of_step rfl hrest

/-- **The trail does not depend on the adversary.** -/
theorem sights_trail (link : ℕ) (stops : List (Stop P)) (b : Backward P) :
    (sights home reply adv link stops b).map Sight.trail = itinerary home stops := by
  induction stops generalizing link b with
  | nil => rfl
  | cons s stops ih => exact congrArg (List.cons _) (ih (link + 1) _)

/-- What is seen behind some stops is what is seen from there on. -/
theorem drop_sights (link : ℕ) (pre stops : List (Stop P)) (b : Backward P) :
    (sights home reply adv link (pre ++ stops) b).drop pre.length =
      sights home reply adv (link + pre.length) stops (evolve reply adv link pre b) := by
  induction pre generalizing link b with
  | nil => rfl
  | cons s pre ih =>
      have hrest := ih (link + 1) (s.onward reply ((adv link).getD b))
      rw [Nat.add_right_comm, Nat.add_assoc] at hrest
      exact hrest

/-- The backward section evolves along some stops and then along the others. -/
theorem evolve_append (link : ℕ) (pre stops : List (Stop P)) (b : Backward P) :
    evolve reply adv link (pre ++ stops) b =
      evolve reply adv (link + pre.length) stops (evolve reply adv link pre b) := by
  induction pre generalizing link b with
  | nil => rfl
  | cons s pre ih =>
      have hrest := ih (link + 1) (s.onward reply ((adv link).getD b))
      rw [Nat.add_right_comm, Nat.add_assoc] at hrest
      exact hrest

/-- Relays that nobody disturbs take their layers off. -/
theorem evolve_relays {adv : Tampering P} (legs : List (Leg P)) (link : ℕ)
    (h : ∀ i, link ≤ i → i < link + legs.length → adv i = none) (b : Backward P) :
    evolve reply adv link (legs.map relay) b =
      peelAll (peelBackward P) (legs.map Leg.key) b := by
  induction legs generalizing link b with
  | nil => rfl
  | cons leg legs ih =>
      have hhere : adv link = none := h link le_rfl (by simp)
      have hrest : ∀ i, link + 1 ≤ i → i < link + 1 + legs.length → adv i = none := by
        intro i hi hi'
        apply h i (Nat.le_of_succ_le hi)
        rw [List.length_cons]
        omega
      rw [List.map_cons, List.map_cons, evolve, hhere]
      exact ih (link + 1) hrest _

/-- Relays report the node that comes next. -/
theorem itinerary_relays (legs : List (Leg P)) (stops : List (Stop P)) :
    (itinerary home (legs.map relay ++ stops)).map Trail.outcome =
      ((legs ++ [nextLeg home stops]).map Leg.node).tail.map .hop ++
        (itinerary home stops).map Trail.outcome := by
  induction legs with
  | nil => rfl
  | cons leg legs ih =>
      obtain ⟨rest, hrest⟩ := List.head?_eq_some_iff.mp (nextLeg_relays home legs stops)
      rw [hrest] at ih
      rw [List.map_cons, List.cons_append, List.cons_append, hrest, itinerary, List.map_cons, ih]
      rfl

end Run

/-! ## Runs of the network -/

section Network

variable {net : Network P} {home : Home P}

/-- **The network passes all stops of a circuit that it serves.** -/
theorem network_run (hw : P.tagCodec.FixedWidth w) {stops : List (Stop P)}
    (h : Served net home stops) (link : ℕ) (fl : Flight P)
    (hnode : fl.node = (nextLeg home stops).node)
    (hfront : front fl.onion = (nextLeg home stops).front) (adv : Tampering P) :
    ∃ events last, (net.machine adv).run stops.length (link, fl) =
        .ok (events, some (link + stops.length, last)) ∧
      events.map sight = sights home net.reply adv link stops fl.onion.backward ∧
      view last = ⟨home.leg.node, home.leg.front,
        evolve net.reply adv link stops fl.onion.backward⟩ := by
  have hview : view fl =
      ⟨(nextLeg home stops).node, (nextLeg home stops).front, fl.onion.backward⟩ := by
    rw [view, hnode, hfront]
  have hcircuit := circuit_run home net.reply adv net.expectedTag link stops fl.onion.backward
  obtain ⟨events, s', hrun, hsights, hrel⟩ :=
    (circuit_simulates hw net home adv).run_ok (s := (link, fl)) ⟨rfl, hview, h⟩ hcircuit
  cases hrel with
  | some hfollows =>
      rename_i s'
      obtain ⟨link', last⟩ := s'
      obtain ⟨hlink, hlast, -⟩ := hfollows
      obtain rfl : link' = link + stops.length := hlink
      exact ⟨events, last, hrun, hsights, hlast⟩

/-- The last turn, when the link to the sender is left alone. -/
theorem machine_home (hw : P.tagCodec.FixedWidth w) (h : home.Serves net) {adv : Tampering P}
    {link : ℕ} (hadv : adv link = none) {fl : Flight P} {b : Backward P}
    (hview : view fl = ⟨home.leg.node, home.leg.front, b⟩) :
    (net.machine adv).step (link, fl) =
      (openReply P home.key (net.expectedTag home.leg.front.blocks.flatten)
        (coverAll (coverBackward P) home.layers b)).map
          fun payload => (⟨fl, .sender payload, none⟩, none) := by
  obtain ⟨hnode, hfront, rfl⟩ := View.mk.inj hview
  have hturn := node_of_home hw h fl hnode hfront
  change (net.node (Network.tamper (adv link) fl) >>= fun event => _) = _
  rw [hadv]
  change (net.node fl >>= fun event => _) = _
  rw [hturn]
  cases openReply P home.key (net.expectedTag home.leg.front.blocks.flatten)
    (coverAll (coverBackward P) home.layers fl.onion.backward) <;> rfl

end Network

/-! ## Opening the reply -/

/-- The reply opens under the tag that it was encrypted with.  SRC: src/lib.rs:725-733 -/
theorem openReply_aeEnc (hP : P.Lawful) (key : P.SymmetricKey) (tag : P.Tag) (reply : Bytes) :
    openReply P key (some tag) (aeEnc P key tag reply) = .ok reply := by
  have hdec := (aeDec_eq_some_iff hP key tag (aeEnc P key tag reply) reply).mpr rfl
  rw [openReply, orErr_some, ok_bind, hdec, orErr_some]

/-- The reply does not open under another tag.  SRC: src/lib.rs:725-733 -/
theorem openReply_aeEnc_of_ne (hP : P.Lawful) (hw : P.tagCodec.FixedWidth w)
    (key : P.SymmetricKey) {mu tag : P.Tag} (h : mu ≠ tag) (reply : Bytes) :
    openReply P key (some tag) (aeEnc P key mu reply) = .error (.err .aeError) := by
  rw [openReply, orErr_some, ok_bind, aeDec_aeEnc_of_ne hP hw key h, orErr_none]

/-! ## The run of a formed onion -/

section Travels

variable {net : Network P} {fwd bwd : List Address} {payload : Bytes} {o : Onion P}
  {expected : ExpectedResponse P} {legsF legsB : List (Leg P)} {turn : Leg P} {home : Home P}

/-- There is a stop for each hop but the sender. -/
theorem circuitStops_length (h : Travels net fwd bwd payload o expected legsF turn legsB home) :
    (circuitStops legsF turn payload legsB).length = fwd.length + bwd.length - 1 := by
  rw [← h.forward, ← h.backward]
  simp only [circuitStops, List.length_append, List.length_cons, List.length_map,
    List.length_nil]
  omega

/-- What the circuit leaves of the backward section at the receiver. -/
def atTurn (reply : Bytes) (adv : Tampering P) (legsF : List (Leg P)) (b : Backward P) :
    Backward P :=
  (adv legsF.length).getD (evolve reply adv 0 (legsF.map relay) b)

/-- INTERNAL: behind the receiver, the backward section depends on what came before through the
receiver's tag only.  SRC: src/lib.rs:590-608 -/
theorem evolve_circuitStops (reply : Bytes) (adv : Tampering P) (b : Backward P) :
    evolve reply adv 0 (circuitStops legsF turn payload legsB) b =
      evolve reply adv (legsF.length + 1) (legsB.map relay)
        (aeEnc P turn.key (peelBackward P turn.key (atTurn reply adv legsF b)).2 reply) := by
  rw [circuitStops, evolve_append, List.length_map, Nat.zero_add]
  rfl

/-- The receiver reads the tag that the sender expects, when nobody disturbs the way to it. -/
theorem Travels.expected_tag
    (h : Travels net fwd bwd payload o expected legsF turn legsB home) {adv : Tampering P}
    (hadv : ∀ i < fwd.length, adv i = none) (reply : Bytes) :
    (peelBackward P turn.key (atTurn reply adv legsF o.backward)).2 = expected.tag := by
  have hlen : fwd.length = legsF.length + 1 := by
    rw [← h.forward]
    simp
  rw [atTurn, hadv _ (by omega), evolve_relays reply legsF 0 (fun i _ hi => hadv i (by omega))]
  exact h.tag

/-- What is left of a circuit is served. -/
theorem Served.drop (pre : List (Stop P)) {stops : List (Stop P)}
    (h : Served net home (pre ++ stops)) : Served net home stops := by
  induction pre with
  | nil => exact h
  | cons s pre ih => exact ih h.2

/-- The circuit ends with a sender that is served. -/
theorem Travels.home_serves
    (h : Travels net fwd bwd payload o expected legsF turn legsB home) : home.Serves net := by
  have hserved := h.served
  rw [← List.append_nil (circuitStops legsF turn payload legsB)] at hserved
  exact hserved.drop

/-- **The receiver's turn.**  What it unwraps, and the forward section that it sends.
SRC: src/lib.rs:582-611 -/
theorem Travels.receiver_turn (h : Travels net fwd bwd payload o expected legsF turn legsB home)
    {adv : Tampering P} {events : List (Event P)}
    (hsights : events.map sight =
      sights home net.reply adv 0 (circuitStops legsF turn payload legsB) o.backward) :
    ∃ e sent hopMeta onion, events[fwd.length - 1]? = some e ∧ e.sent = some sent ∧
      net.format.unwrap (net.privateKey e.received.node) e.received.onion =
        .ok (turn.key, hopMeta, onion) ∧
      onion.backward = peelBackward P turn.key (atTurn net.reply adv legsF o.backward) ∧
      sent.onion.forward = randomPayload net.format turn.key payload.length := by
  have hlen : fwd.length - 1 = (legsF.map relay).length := by
    rw [← h.forward]
    simp
  have hdrop := drop_sights home net.reply adv 0 (legsF.map relay)
    (⟨turn, .deliver payload⟩ :: legsB.map relay) o.backward
  rw [← circuitStops, ← hsights, ← List.map_drop, Nat.zero_add, List.length_map] at hdrop
  obtain ⟨e, rest, hcons, hsight, -⟩ := List.map_eq_cons_iff.mp hdrop
  obtain ⟨hserves, -⟩ := Served.drop (legsF.map relay) h.served
  obtain ⟨f', hstep, -, hforward⟩ := hserves
  have hshape := h.shape turn (by simp)
  obtain ⟨hreceived, -, hsent⟩ := Sight.mk.inj hsight
  obtain ⟨hnode, hfront, hbackward⟩ := View.mk.inj hreceived
  obtain ⟨sent, hsome, hview⟩ := Option.map_eq_some_iff.mp hsent
  have hopen := hstep e.received.onion hfront
  rw [← hnode] at hopen
  refine ⟨e, sent, _, _, ?_, hsome, hopen, ?_, ?_⟩
  · rw [hlen, List.length_map, ← List.head?_drop, hcons]
    rfl
  · rw [hbackward]
    rfl
  · have hsentForward : sent.onion.forward = (nextLeg home (legsB.map relay)).front.forward :=
      congrArg (fun v => v.front.forward) hview
    rw [hsentForward, hforward, hshape.forward, randomPayload]

/-- **The sender's turn**, when the links of the backward path are left alone: it opens what the
receiver encrypted.  SRC: src/lib.rs:714-734 -/
theorem Travels.sender_turn (hP : P.Lawful) (hw : P.tagCodec.FixedWidth w)
    (h : Travels net fwd bwd payload o expected legsF turn legsB home) {adv : Tampering P}
    (hadv : ∀ i, fwd.length ≤ i → adv i = none) {last : Flight P}
    (hview : view last = ⟨home.leg.node, home.leg.front,
      evolve net.reply adv 0 (circuitStops legsF turn payload legsB) o.backward⟩)
    (hlookup : net.expectedTag expected.identifier = some expected.tag) :
    (net.machine adv).step (fwd.length + bwd.length - 1, last) =
      (openReply P turn.key (some expected.tag) (aeEnc P turn.key
        (peelBackward P turn.key (atTurn net.reply adv legsF o.backward)).2 net.reply)).map
          fun payload => (⟨last, .sender payload, none⟩, none) := by
  have hlen : fwd.length = legsF.length + 1 := by
    rw [← h.forward]
    simp
  have hbwd : 1 ≤ bwd.length := by
    rw [← h.backward]
    simp
  have hlink : adv (fwd.length + bwd.length - 1) = none := hadv _ (by omega)
  rw [evolve_circuitStops, evolve_relays net.reply legsB (legsF.length + 1)
    (fun i hi _ => hadv i (by omega))] at hview
  rw [machine_home hw h.home_serves hlink hview, h.layers, h.key, h.identifier, hlookup,
    coverAll_peelAll (coverBackward_peelBackward hP hw)]

end Travels

end Eror.Analysis
