import Eror.Analysis.CircuitRun

/-!
# Delivery of payload and reply

Whatever `form_onion` returns travels: the forward hops relay it to the receiver, the receiver
obtains the payload and replies, the backward hops relay the reply to the sender, and the sender
opens it (`network_delivers`).
-/

set_option autoImplicit false

namespace Eror.Analysis

open Library Model

variable {R : Type} {P : Primitives R}

/-! ## Outcomes along the circuit -/

/-- A turn is taken at each stop. -/
theorem itinerary_nodes (home : Home P) (stops : List (Stop P)) :
    (itinerary home stops).map (fun t => t.received.1) = stops.map fun s => s.leg.node := by
  induction stops with
  | nil => rfl
  | cons s stops ih => rw [itinerary, List.map_cons, List.map_cons, ih]

section Travels

variable {net : Network P} {fwd bwd : List Address} {payload : Bytes} {o : Onion P}
  {expected : ExpectedResponse P} {legsF legsB : List (Leg P)} {turn : Leg P} {home : Home P}

/-- What the nodes report.  SRC: src/lib.rs:697-713 -/
theorem Travels.outcomes (h : Travels net fwd bwd payload o expected legsF turn legsB home)
    {replyTo : Address} (hreplyTo : bwd.head? = some replyTo) :
    (itinerary home (circuitStops legsF turn payload legsB)).map Trail.outcome =
      fwd.tail.map .hop ++ .receiver payload replyTo :: bwd.tail.map .hop := by
  have hnext : (nextLeg home (legsB.map relay)).node = replyTo := by
    rw [← h.backward, List.head?_map, nextLeg_relays_nil] at hreplyTo
    exact Option.some.inj hreplyTo
  have hback := itinerary_relays home legsB []
  rw [List.append_nil, itinerary, List.map_nil, List.append_nil] at hback
  change _ = (((legsB ++ [home.leg]).map Leg.node).tail.map _ : List Outcome) at hback
  rw [h.backward] at hback
  have hforw := itinerary_relays home legsF (⟨turn, .deliver payload⟩ :: legsB.map relay)
  change _ = (((legsF ++ [turn]).map Leg.node).tail.map _ : List Outcome) ++ _ at hforw
  rw [h.forward, itinerary, List.map_cons, hback, hnext] at hforw
  exact hforw

/-- The nodes that take a turn.  SRC: src/lib.rs:623-684 -/
theorem Travels.nodes (h : Travels net fwd bwd payload o expected legsF turn legsB home) :
    (itinerary home (circuitStops legsF turn payload legsB)).map (fun t => t.received.1) ++
      [home.leg.node] = fwd ++ bwd := by
  rw [itinerary_nodes, ← h.forward, ← h.backward]
  simp [circuitStops, Function.comp_def, relay]

/-- **The run along the circuit.**  It goes as far as the sender, whatever is put into the backward
sections.  SRC: src/lib.rs:582-611, 697-736 -/
theorem Travels.run {w : ℕ} (hw : P.tagCodec.FixedWidth w)
    (h : Travels net fwd bwd payload o expected legsF turn legsB home) {first : Address}
    (hfirst : fwd.head? = some first) (adv : Tampering P) :
    ∃ events last, (net.machine adv).run (fwd.length + bwd.length - 1) (0, ⟨first, o⟩) =
        .ok (events, some (fwd.length + bwd.length - 1, last)) ∧
      events.map sight =
        sights home net.reply adv 0 (circuitStops legsF turn payload legsB) o.backward ∧
      events.map trail = itinerary home (circuitStops legsF turn payload legsB) ∧
      view last = ⟨home.leg.node, home.leg.front,
        evolve net.reply adv 0 (circuitStops legsF turn payload legsB) o.backward⟩ := by
  have hnode : first = (nextLeg home (circuitStops legsF turn payload legsB)).node := by
    have hhead : (legsF ++ [turn]).head? =
        some (nextLeg home (circuitStops legsF turn payload legsB)) :=
      nextLeg_relays home legsF (⟨turn, .deliver payload⟩ :: legsB.map relay)
    rw [← h.forward, List.head?_map, hhead] at hfirst
    exact (Option.some.inj hfirst).symm
  obtain ⟨events, last, hrun, hsights, hlast⟩ :=
    network_run hw h.served 0 ⟨first, o⟩ hnode h.first.symm adv
  rw [circuitStops_length h, Nat.zero_add] at hrun
  refine ⟨events, last, hrun, hsights, ?_, hlast⟩
  rw [← sights_trail home net.reply adv 0 _ o.backward, ← hsights, List.map_map]
  apply List.map_congr_left
  intro e _
  exact (sight_trail e).symm

/-- **The whole run**, when the links of the backward path are left alone.
SRC: src/lib.rs:714-734 -/
theorem Travels.whole_run {w : ℕ} (hP : P.Lawful) (hw : P.tagCodec.FixedWidth w)
    (h : Travels net fwd bwd payload o expected legsF turn legsB home) {adv : Tampering P}
    (hadv : ∀ i, fwd.length ≤ i → adv i = none)
    (hlookup : net.expectedTag expected.identifier = some expected.tag) {start last : Flight P}
    {events : List (Event P)}
    (hrun : (net.machine adv).run (fwd.length + bwd.length - 1) (0, start) =
      .ok (events, some (fwd.length + bwd.length - 1, last)))
    (hlast : view last = ⟨home.leg.node, home.leg.front,
      evolve net.reply adv 0 (circuitStops legsF turn payload legsB) o.backward⟩) :
    (net.machine adv).run (fwd.length + bwd.length) (0, start) =
      (openReply P turn.key (some expected.tag) (aeEnc P turn.key
        (peelBackward P turn.key (atTurn net.reply adv legsF o.backward)).2 net.reply)).map
          fun payload => (events ++ [⟨last, .sender payload, none⟩], none) := by
  have hturn := h.sender_turn hP hw hadv hlast hlookup
  have hsteps : fwd.length + bwd.length = fwd.length + bwd.length - 1 + 1 := by
    rw [← h.forward]
    simp only [List.map_append, List.map_cons, List.map_nil, List.length_append,
      List.length_singleton]
    omega
  have hwhole := Machine.run_add 1 hrun
  rw [← hsteps] at hwhole
  rw [hwhole]
  cases hopen : openReply P turn.key (some expected.tag) (aeEnc P turn.key
      (peelBackward P turn.key (atTurn net.reply adv legsF o.backward)).2 net.reply) with
  | error fault =>
      rw [hopen] at hturn
      rw [Machine.run_succ_of_error hturn]
      rfl
  | ok payload =>
      rw [hopen] at hturn
      rw [Machine.run_succ_of_halt hturn]
      rfl

end Travels

/-- **Delivery.**  For paths within the limit whose hops are registered, `form_onion` returns,
and its onion makes the whole way, repeated addresses or not: every forward hop but the last
obtains the following address, the last one the payload, every backward hop but the last the
following address, and the last one, which is the sender, the reply, as long as the lookup knows
the expected tag under the expected identifier.  SRC: src/lib.rs:582-611, 623-684, 697-736 -/
theorem network_delivers [Rng R] (hP : P.Lawful) (hW : P.Widths 16 40) (F : OnionFormat P)
    (sk : Address → P.PrivateKey) (fwd bwd : List Address) (hfwd : Primitives.Routable F sk fwd)
    (hbwd : Primitives.Routable F sk bwd) (payload reply : Bytes)
    (hpayload : payload.length < 2 ^ 64) (rng : R) :
    ∃ o expected rng', F.formOnion fwd bwd payload rng = .ok ((o, expected), rng') ∧
      ∀ lookup : Bytes → Option P.Tag, lookup expected.identifier = some expected.tag →
        ∃ first replyTo events, fwd.head? = some first ∧ bwd.head? = some replyTo ∧
          (Network.machine ⟨F, sk, lookup, reply⟩ (noTampering P)).run (fwd.length + bwd.length)
            (0, ⟨first, o⟩) = .ok (events, none) ∧
          events.map (fun e => e.received.node) = fwd ++ bwd ∧
          events.map Event.outcome =
            fwd.tail.map .hop ++ .receiver payload replyTo :: bwd.tail.map .hop ++
              [.sender reply] := by
  obtain ⟨o, expected, rng', masterKey, key, replyTo, back₁, backₙ, plans, hform, hformed⟩ :=
    formOnion_spec hP hW.tag hfwd hbwd payload rng
  refine ⟨o, expected, rng', hform, ?_⟩
  intro lookup hlookup
  let net : Network P := ⟨F, sk, lookup, reply⟩
  obtain ⟨legsF, turn, legsB, home, htravels⟩ :=
    FormedBy.travels net hP hW rfl hformed (hformed.opens hW hfwd hbwd) hfwd.ne_nil hbwd.ne_nil
      hfwd.le hbwd.le hpayload
  obtain ⟨events, last, hrun, -, htrail, hlast⟩ :=
    htravels.run hW.tag (List.head?_eq_some_head hfwd.ne_nil) (noTampering P)
  have hforward : ∀ i < fwd.length, noTampering P i = none := fun _ _ => rfl
  have hbackward : ∀ i, fwd.length ≤ i → noTampering P i = none := fun _ _ => rfl
  have hwhole := htravels.whole_run hP hW.tag hbackward hlookup hrun hlast
  rw [htravels.expected_tag hforward, openReply_aeEnc hP] at hwhole
  refine ⟨_, replyTo, _, List.head?_eq_some_head hfwd.ne_nil, hformed.firstHop, hwhole, ?_, ?_⟩
  · have hnode : last.node = home.leg.node := congrArg View.node hlast
    rw [List.map_append, ← htravels.nodes, ← htrail, List.map_map, ← hnode]
    rfl
  · rw [List.map_append, ← htravels.outcomes hformed.firstHop, ← htrail, List.map_map]
    rfl

/-- Two forward hops at one address, and a backward path of one hop, where three are allowed. -/
theorem network_delivers_sample : ∃ o expected rng' events,
    (sampleFormat 3).formOnion [sampleAddress 7, sampleAddress 7] [sampleAddress 8] [1, 2] 0 =
        .ok ((o, expected), rng') ∧
      (Network.machine ⟨sampleFormat 3, samplePrivateKey, onlyExpected expected, [5]⟩
        (noTampering samplePrimitives)).run 3 (0, ⟨sampleAddress 7, o⟩) = .ok (events, none) ∧
      events.map Event.outcome = [.hop (sampleAddress 7), .receiver [1, 2] (sampleAddress 8),
        .sender [5]] := by
  obtain ⟨o, expected, rng', hform, hrun⟩ := network_delivers samplePrimitives_lawful
    samplePrimitives_widths (sampleFormat 3) samplePrivateKey
    [sampleAddress 7, sampleAddress 7] [sampleAddress 8]
    (sampleFormat_routable 3 (by decide) (by decide))
    (sampleFormat_routable 3 (by decide) (by decide)) [1, 2] [5] (by decide) (0 : ℕ)
  obtain ⟨first, replyTo, events, hfirst, hreplyTo, hevents, -, houtcomes⟩ :=
    hrun (onlyExpected expected) (onlyExpected_identifier expected)
  cases hfirst
  cases hreplyTo
  exact ⟨o, expected, rng', events, hform, hevents, houtcomes⟩

end Eror.Analysis
