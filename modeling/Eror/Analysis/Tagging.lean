import Eror.Analysis.Delivery

/-!
# Tagging the backward section

An adversary who replaces the backward section on the way changes neither where the onion goes,
nor what shows of it apart from that section, nor what the receiver obtains, nor the identifier
that reaches the sender: the trail of the run is that of the run without tampering.  What does
change is the tag that the receiver reads, and the sender notices (`network_tagging`).
-/

set_option autoImplicit false

namespace Eror.Analysis

open Library Model

variable {R : Type} {P : Primitives R}

/-- **Tagging does not affect delivery, and the sender notices it.**  Whatever an adversary puts
into the backward section on any links: all nodes up to the sender take their turns, and their
trail is that of the run without tampering, with the payload delivered and the expected
identifier in front of the sender.  If the links of the backward path are left alone, the sender,
who knows the expected tag, obtains the reply when the tag that the receiver reads after its own
`unwrap` is the expected one, and `AeError` when it is not.
SRC: src/lib.rs:482-509, 545-575, 582-611, 714-734 -/
theorem network_tagging [Rng R] (hP : P.Lawful) (hW : P.Widths 16 40) (net : Network P)
    (fwd bwd : List Address) (hfwd : Primitives.Routable net.format net.privateKey fwd)
    (hbwd : Primitives.Routable net.format net.privateKey bwd) (payload : Bytes)
    (hpayload : payload.length < 2 ^ 64) (rng rng' : R) (o : Onion P)
    (expected : ExpectedResponse P)
    (h : net.format.formOnion fwd bwd payload rng = .ok ((o, expected), rng'))
    (adv : Tampering P) :
    ∃ first replyTo untampered honest events last, fwd.head? = some first ∧
      bwd.head? = some replyTo ∧
      (net.machine (noTampering P)).run (fwd.length + bwd.length - 1) (0, ⟨first, o⟩) =
        .ok (untampered, some honest) ∧
      (net.machine adv).run (fwd.length + bwd.length - 1) (0, ⟨first, o⟩) =
        .ok (events, some (fwd.length + bwd.length - 1, last)) ∧
      events.map trail = untampered.map trail ∧
      events.map Event.outcome =
        fwd.tail.map .hop ++ .receiver payload replyTo :: bwd.tail.map .hop ∧
      bwd.getLast? = some last.node ∧ last.onion.packedHeader = expected.identifier ∧
      ∃ e key hopMeta onion, events[fwd.length - 1]? = some e ∧
        net.format.unwrap (net.privateKey e.received.node) e.received.onion =
          .ok (key, hopMeta, onion) ∧
        ((∀ link, fwd.length ≤ link → adv link = none) →
          net.expectedTag expected.identifier = some expected.tag →
          (onion.backward.2 = expected.tag →
            (net.machine adv).run (fwd.length + bwd.length) (0, ⟨first, o⟩) =
              .ok (events ++ [⟨last, .sender net.reply, none⟩], none)) ∧
          (onion.backward.2 ≠ expected.tag →
            (net.machine adv).run (fwd.length + bwd.length) (0, ⟨first, o⟩) =
              .error (.err .aeError))) := by
  obtain ⟨legsF, turn, legsB, home, htravels⟩ := travels_of_formOnion hP hW rfl net hfwd
    hbwd hpayload h
  have hfirst := List.head?_eq_some_head hfwd.ne_nil
  have hreplyTo := List.head?_eq_some_head hbwd.ne_nil
  obtain ⟨untampered, honest, hrun₀, -, htrail₀, -⟩ :=
    htravels.run hW.tag hfirst (noTampering P)
  obtain ⟨events, last, hrun, hsights, htrail, hlast⟩ := htravels.run hW.tag hfirst adv
  obtain ⟨e, sent, hopMeta, onion, he, -, hunwrap, hbackward, -⟩ := htravels.receiver_turn hsights
  refine ⟨_, _, untampered, _, events, last, hfirst, hreplyTo, hrun₀, hrun, ?_, ?_, ?_, ?_, e,
    turn.key, hopMeta, onion, he, hunwrap, ?_⟩
  · rw [htrail, htrail₀]
  · rw [← htravels.outcomes hreplyTo, ← htrail, List.map_map]
    rfl
  · have hnode : last.node = home.leg.node := congrArg View.node hlast
    rw [hnode, ← htravels.backward, List.map_append]
    exact List.getLast?_concat
  · have hblocks : headerBytes last.onion.header = home.leg.front.blocks :=
      congrArg (fun v => v.front.blocks) hlast
    rw [← htravels.identifier, ← hblocks]
    exact List.flatMap_def
  · intro hadv hlookup
    have hwhole := htravels.whole_run hP hW.tag hadv hlookup hrun hlast
    rw [← hbackward] at hwhole
    constructor
    · intro htag
      rw [hwhole, htag, openReply_aeEnc hP]
      rfl
    · intro htag
      rw [hwhole, openReply_aeEnc_of_ne hP hW.tag _ htag]
      rfl

/-- The adversary replaces the backward section on the link to the first of two forward hops. -/
theorem network_tagging_sample : ∃ o expected rng' events last,
    (sampleFormat 3).formOnion [sampleAddress 7, sampleAddress 8] [sampleAddress 9] [1, 2] 0 =
        .ok ((o, expected), rng') ∧
      (Network.machine ⟨sampleFormat 3, samplePrivateKey, onlyExpected expected, [5]⟩
        fun link => if link = 0 then some ([6], List.Vector.replicate 16 4) else none).run 2
          (0, ⟨sampleAddress 7, o⟩) = .ok (events, some (2, last)) ∧
      events.map Event.outcome = [.hop (sampleAddress 8), .receiver [1, 2] (sampleAddress 9)] ∧
      last.onion.packedHeader = expected.identifier := by
  have hfwd : Primitives.Routable (sampleFormat 3) samplePrivateKey
      [sampleAddress 7, sampleAddress 8] := sampleFormat_routable 3 (by decide) (by decide)
  have hbwd : Primitives.Routable (sampleFormat 3) samplePrivateKey [sampleAddress 9] :=
    sampleFormat_routable 3 (by decide) (by decide)
  obtain ⟨o, expected, rng', -, -, -, -, -, -, hform, -⟩ := formOnion_spec samplePrimitives_lawful
    samplePrimitives_widths.tag hfwd hbwd [1, 2] (0 : ℕ)
  let net : Network samplePrimitives :=
    ⟨sampleFormat 3, samplePrivateKey, onlyExpected expected, [5]⟩
  obtain ⟨first, replyTo, -, -, events, last, hfirst, hreplyTo, -, hrun, -, houtcomes, -,
    hidentifier, -⟩ := network_tagging samplePrimitives_lawful samplePrimitives_widths net _ _
    hfwd hbwd [1, 2] (by decide) (0 : ℕ) rng' o expected hform
    (fun link => if link = 0 then some ([6], List.Vector.replicate 16 4) else none)
  cases hfirst
  cases hreplyTo
  exact ⟨o, expected, rng', events, last, hform, hrun, houtcomes, hidentifier⟩

end Eror.Analysis
