import Eror.Analysis.Delivery

/-!
# One size for all onions of a run

Along the circuit no front changes its shape (`Travels.shape`), and the backward section keeps
its length (`sights_sent`), so every onion of a run has a serialized length that the path limit
and the length of the payload determine (`network_uniform`).
-/

set_option autoImplicit false

namespace Eror.Analysis

open Library Model

variable {R : Type} {P : Primitives R} {F : OnionFormat P}

/-- The serialized length of an onion of `n` blocks for payloads of `len` bytes, with keys of
`keyLength` bytes. -/
def onionLength (keyLength n len : ℕ) : ℕ :=
  let header := 8 + n * (8 + (16 + keyLength + addressLength + 4 + 32 + 8 + 8))
  header + (8 + (header + 8 + len)) + (8 + len + 16)

/-- The size of an onion for payloads of `len` bytes. -/
structure Uniform (F : OnionFormat P) (len : ℕ) (o : Onion P) : Prop where
  count : o.header.length = F.pathLimit
  block : ∀ h ∈ o.header, h.intoBytes.length = F.singleHeaderLength
  assigned : ∀ h ∈ o.header, h.intoBytes ≠ []
  packed : (Codec.bytes.list.encode (headerBytes o.header)).length = F.totalHeaderLength
  forward : o.forward.length = F.totalHeaderLength + 8 + len
  backward : o.backward.1.length = len
  serialized : o.serialize.length = onionLength P.symmetricKeyLength F.pathLimit len

/-- The shape of the front and the length of the backward section determine the size.
SRC: src/lib.rs:200, 304-316 -/
theorem uniform_of_shape (hw : P.tagCodec.FixedWidth 16) {len : ℕ} {o : Onion P}
    (h : (front o).Shape F (F.totalHeaderLength + 8 + len))
    (hbackward : o.backward.1.length = len) : Uniform F len o := by
  have hwf : o.WellFormed F := Front.Shape.wellFormed h
  have hforward : o.forward.length = F.totalHeaderLength + 8 + len := h.forward
  have hblock : ∀ b ∈ o.header, b.intoBytes.length = F.singleHeaderLength := by
    intro b hb
    exact hwf.block _ (List.mem_map_of_mem hb)
  refine ⟨hwf.count, hblock, ?_, packedHeaders_length hwf, hforward, hbackward, ?_⟩
  · intro b hb hnil
    have hlen := hblock b hb
    rw [hnil, OnionFormat.singleHeaderLength, List.length_nil] at hlen
    omega
  · rw [wellFormed_serialize_length hw hwf, hforward, hbackward]
    rfl

/-- The onion that enters a circuit has the size that all its fronts have.
SRC: src/lib.rs:462-538, 645-648 -/
theorem Travels.uniform (hw : P.tagCodec.FixedWidth 16) {net : Network P} {fwd bwd : List Address}
    {payload : Bytes} {o : Onion P} {expected : ExpectedResponse P} {legsF legsB : List (Leg P)}
    {turn : Leg P} {home : Home P}
    (h : Travels net fwd bwd payload o expected legsF turn legsB home) :
    Uniform net.format payload.length o := by
  apply uniform_of_shape hw _ h.garbage
  rw [← h.first]
  apply h.shape
  cases legsF <;> simp [circuitStops, relay, nextLeg]

/-- INTERNAL: what the stops send has a front of the circuit and a backward section of the
length of the reply.  SRC: src/lib.rs:545-575, 582-611 -/
theorem sights_sent (home : Home P) {reply : Bytes} {len : ℕ} (hreply : reply.length = len)
    {adv : Tampering P} (hadv : ∀ link b, adv link = some b → b.1.length = len) (link : ℕ)
    (stops : List (Stop P)) {b : Backward P} (hb : b.1.length = len) :
    ∀ s ∈ sights home reply adv link stops b, ∃ v, s.sent = some v ∧
      v.front ∈ (stops.map Stop.leg ++ [home.leg]).map Leg.front ∧ v.backward.1.length = len := by
  induction stops generalizing link b with
  | nil => simp [sights]
  | cons s stops ih =>
      have harrived : ((adv link).getD b).1.length = len := by
        cases hlink : adv link with
        | none => exact hb
        | some b' => exact hadv link b' hlink
      have honward : (s.onward reply ((adv link).getD b)).1.length = len := by
        unfold Stop.onward
        cases s.task with
        | relay => exact (peelBackward_length ..).trans harrived
        | deliver payload => exact (aeEnc_length ..).trans hreply
      intro s' hs'
      rcases List.mem_cons.mp hs' with rfl | hs'
      · refine ⟨_, rfl, ?_, honward⟩
        cases stops <;> simp [nextLeg]
      · obtain ⟨v, hv, hfront, hlen⟩ := ih (link + 1) honward s' hs'
        exact ⟨v, hv, List.mem_cons_of_mem _ hfront, hlen⟩

/-- **Uniform size.**  When payload and reply have the same length, all onions of a run have
`max_path_length` blocks of the length of a single header, sections of the same lengths, and one
serialized length, whatever the two paths are: the onion that `form_onion` returns, what every
hop sends, and the reply, whose forward section is the one that `form_onion` prepared.
SRC: src/lib.rs:304-324, 462-538, 560-572, 582-611, 645-648 -/
theorem network_uniform [Rng R] (hP : P.Lawful) (hW : P.Widths 16 40) (net : Network P)
    (fwd bwd : List Address) (hfwd : Primitives.Routable net.format net.privateKey fwd)
    (hbwd : Primitives.Routable net.format net.privateKey bwd) (payload : Bytes)
    (hpayload : payload.length < 2 ^ 64) (hreply : net.reply.length = payload.length)
    (rng rng' : R) (o : Onion P) (expected : ExpectedResponse P)
    (h : net.format.formOnion fwd bwd payload rng = .ok ((o, expected), rng')) :
    ∃ first events last, fwd.head? = some first ∧
      (net.machine (noTampering P)).run (fwd.length + bwd.length - 1) (0, ⟨first, o⟩) =
        .ok (events, some (fwd.length + bwd.length - 1, last)) ∧
      Uniform net.format payload.length o ∧
      (∀ e ∈ events, ∃ fl, e.sent = some fl ∧ Uniform net.format payload.length fl.onion) ∧
      ∃ e sent key, events[fwd.length - 1]? = some e ∧ e.sent = some sent ∧
        sent.onion.forward = randomPayload net.format key payload.length := by
  obtain ⟨legsF, turn, legsB, home, htravels⟩ := travels_of_formOnion hP hW rfl net hfwd
    hbwd hpayload h
  have hfirst := List.head?_eq_some_head hfwd.ne_nil
  obtain ⟨events, last, hrun, hsights, htrail, -⟩ := htravels.run hW.tag hfirst (noTampering P)
  obtain ⟨e, sent, -, -, he, hsent, -, -, hrandom⟩ := htravels.receiver_turn hsights
  have hlegs : (circuitStops legsF turn payload legsB).map Stop.leg ++ [home.leg] =
      legsF ++ turn :: (legsB ++ [home.leg]) := by
    simp [circuitStops, Function.comp_def, relay]
  have hshape : ∀ f ∈ ((circuitStops legsF turn payload legsB).map Stop.leg ++
      [home.leg]).map Leg.front, f.Shape net.format (net.format.totalHeaderLength + 8 +
        payload.length) := by
    intro f hf
    obtain ⟨leg, hleg, rfl⟩ := List.mem_map.mp hf
    rw [hlegs] at hleg
    exact htravels.shape leg hleg
  refine ⟨_, events, last, hfirst, hrun, ?_, ?_, e, sent, turn.key, he, hsent, hrandom⟩
  · exact htravels.uniform hW.tag
  · intro e he
    have hmem : sight e ∈ sights home net.reply (noTampering P) 0
        (circuitStops legsF turn payload legsB) o.backward := by
      rw [← hsights]
      exact List.mem_map_of_mem he
    have hadv : ∀ link b, noTampering P link = some b → b.1.length = payload.length := by
      intro link b hsome
      cases hsome
    obtain ⟨v, hv, hfront, hbackward⟩ := sights_sent home hreply hadv 0 _ htravels.garbage _ hmem
    obtain ⟨fl, hfl, rfl⟩ := Option.map_eq_some_iff.mp hv
    exact ⟨fl, hfl, uniform_of_shape hW.tag (hshape _ hfront) hbackward⟩

/-- Two forward hops, one backward hop, a payload and a reply of two bytes. -/
theorem network_uniform_sample : ∃ o expected rng' events last,
    (sampleFormat 3).formOnion [sampleAddress 7, sampleAddress 8] [sampleAddress 9] [1, 2] 0 =
        .ok ((o, expected), rng') ∧ o.serialize.length = 804 ∧
      (Network.machine ⟨sampleFormat 3, samplePrivateKey, onlyExpected expected, [5, 6]⟩
        (noTampering samplePrimitives)).run 2 (0, ⟨sampleAddress 7, o⟩) =
          .ok (events, some (2, last)) ∧
      ∀ e ∈ events, ∃ fl, e.sent = some fl ∧ fl.onion.serialize.length = 804 := by
  have hfwd : Primitives.Routable (sampleFormat 3) samplePrivateKey
      [sampleAddress 7, sampleAddress 8] := sampleFormat_routable 3 (by decide) (by decide)
  have hbwd : Primitives.Routable (sampleFormat 3) samplePrivateKey [sampleAddress 9] :=
    sampleFormat_routable 3 (by decide) (by decide)
  obtain ⟨o, expected, rng', -, -, -, -, -, -, hform, -⟩ := formOnion_spec samplePrimitives_lawful
    samplePrimitives_widths.tag hfwd hbwd [1, 2] (0 : ℕ)
  let net : Network samplePrimitives :=
    ⟨sampleFormat 3, samplePrivateKey, onlyExpected expected, [5, 6]⟩
  obtain ⟨first, events, last, hfirst, hrun, ho, hevents, -⟩ := network_uniform
    samplePrimitives_lawful samplePrimitives_widths net _ _ hfwd hbwd [1, 2] (by decide) rfl
    (0 : ℕ) rng' o expected hform
  cases hfirst
  have hsize : onionLength 16 3 2 = 804 := rfl
  refine ⟨o, expected, rng', events, last, hform, ho.serialized.trans hsize, hrun, ?_⟩
  intro e he
  obtain ⟨fl, hfl, huniform⟩ := hevents e he
  exact ⟨fl, hfl, huniform.serialized.trans hsize⟩

end Eror.Analysis
