import Eror.Analysis.SphinxHeaderSpec
import Eror.Analysis.SphinxPayload
import Eror.Analysis.SphinxFormats

/-!
# A Sphinx packet reaches its destination

The header of a packet takes it along the route whatever becomes of the payload, since no hop looks
at the payload before it goes on (`run_route`).  So whoever changes payloads on the links changes
neither the way nor the length of a packet (`buildPacket_delivers`), and a reply block takes any
payload to the one who made it (`surb_delivers`).

A payload that nobody changes has one layer taken off by each hop, and ends as it was before any
was put on.
-/

set_option autoImplicit false

namespace Eror.Analysis.Sphinx

open Library Model.Sphinx
open Model (Rng genBytes)

variable {C : Crates}

/-! ## One node -/

/-- Lioness takes the layer off a payload that is longer than a digest.
SRC: sphinx/src/payload/mod.rs:121-134 -/
theorem unwrap_ok (hC : C.Lawful) {payload : Payload} (key : Arr payloadKeySize)
    (h : lionessDigestResultSize < payload.bytes.length) :
    ∃ opened, payload.unwrap C key = .ok opened ∧
      opened.bytes.length = payload.bytes.length := by
  obtain ⟨data, hdata⟩ := hC.lionessDecrypt_ok key payload.bytes h
  refine ⟨⟨data⟩, ?_, hC.lionessDecrypt_length _ _ _ hdata⟩
  rw [Payload.unwrap, hdata]

section Node

variable {bytes : Bytes} {packet : SphinxPacket} {sk : PrivateKey C} {key : Arr payloadKeySize}
  {opened : Payload}

/-- A forward node sends the packet on with the header that it processed and the payload that it
opened.  SRC: sphinx/src/packet/mod.rs:96-110 -/
theorem node_forward {header : SphinxHeader} {address : Arr nodeAddressLength} {delay : Delay}
    (hbytes : SphinxPacket.fromBytes bytes = .ok packet)
    (hheader : packet.header.process C sk = .ok (.forwardHop header address delay key))
    (hpayload : packet.payload.unwrap C key = .ok opened) :
    node sk bytes = .ok (.forwardHop address delay,
      some (address, (⟨header, opened⟩ : SphinxPacket).toBytes)) := by
  rw [node, hbytes, ok_bind, SphinxPacket.process, hheader, ok_bind, SphinxPacket.unwrapPayload,
    hpayload]
  rfl

/-- The last node hands the payload over and sends nothing.  SRC: sphinx/src/packet/mod.rs:111-118
-/
theorem node_final {address : Arr destinationAddressLength} {identifier : Arr identifierLength}
    (hbytes : SphinxPacket.fromBytes bytes = .ok packet)
    (hheader : packet.header.process C sk = .ok (.finalHop address identifier key))
    (hpayload : packet.payload.unwrap C key = .ok opened) :
    node sk bytes = .ok (.finalHop address identifier opened, none) := by
  rw [node, hbytes, ok_bind, SphinxPacket.process, hheader, ok_bind, SphinxPacket.unwrapPayload,
    hpayload]
  rfl

end Node

/-! ## The route -/

variable {secretKey : Arr nodeAddressLength → PrivateKey C} {link : ℕ → Bytes → Bytes}

/-- What a node does is a step of the network. -/
theorem network_step {s : InTransit} {outcome : Outcome}
    {next : Option (Arr nodeAddressLength × Bytes)}
    (h : node (secretKey s.node) (link s.passed s.bytes) = .ok (outcome, next)) :
    (network secretKey link).step s = .ok (⟨s.node, link s.passed s.bytes, outcome⟩,
      next.map fun n => ⟨s.passed + 1, n.1, n.2⟩) := by
  change (node (secretKey s.node) (link s.passed s.bytes) >>= _) = _
  rw [h]
  rfl

/-- What arrives is a packet with the same header. -/
theorem received_packet (h : KeepsHeader link) (i : ℕ) (packet : SphinxPacket)
    (hlen : payloadOverheadSize ≤ packet.payload.bytes.length) :
    ∃ payload, SphinxPacket.fromBytes (link i packet.toBytes) = .ok ⟨packet.header, payload⟩ ∧
      payload.bytes.length = packet.payload.bytes.length ∧
      ((∀ i bytes, link i bytes = bytes) → payload = packet.payload) := by
  have hpayload : ((link i packet.toBytes).drop headerSize).length =
      packet.payload.bytes.length := by
    rw [List.length_drop, h.length, packet_toBytes_length, SphinxPacket.len]
    omega
  refine ⟨⟨(link i packet.toBytes).drop headerSize⟩, packet_fromBytes_eq_ok.mpr ⟨?_, ?_⟩,
    hpayload, ?_⟩
  · have hheader : (link i packet.toBytes).take headerSize = packet.header.toBytes := by
      rw [h.take]
      exact List.take_left' (header_toBytes_length _)
    calc link i packet.toBytes
        = (link i packet.toBytes).take headerSize ++ (link i packet.toBytes).drop headerSize :=
          (List.take_append_drop _ _).symm
      _ = packet.header.toBytes ++ (link i packet.toBytes).drop headerSize := by rw [hheader]
  · rw [hpayload]
    exact hlen
  · intro hsame
    rw [hsame]
    exact congrArg Payload.mk (List.drop_left' (header_toBytes_length _))

/-- What arrives is opened with any key, as what was sent if nobody changes it. -/
theorem received_opened (hC : C.Lawful) (h : KeepsHeader link) (i : ℕ) (header : SphinxHeader)
    {payload : Payload} (key : Arr payloadKeySize)
    (hpayload : lionessDigestResultSize < payload.bytes.length) :
    ∃ received opened, SphinxPacket.fromBytes (link i (⟨header, payload⟩ : SphinxPacket).toBytes) =
        .ok ⟨header, received⟩ ∧
      received.unwrap C key = .ok opened ∧ opened.bytes.length = payload.bytes.length ∧
      ((∀ i bytes, link i bytes = bytes) → payload.unwrap C key = .ok opened) := by
  have hoverhead : payloadOverheadSize ≤ payload.bytes.length := by
    simp only [sizes] at hpayload ⊢
    omega
  obtain ⟨received, hreceived, hkept, hsame⟩ := received_packet h i ⟨header, payload⟩ hoverhead
  obtain ⟨opened, hopened, hlen⟩ := unwrap_ok hC key (hkept.symm ▸ hpayload)
  refine ⟨received, opened, hreceived, hopened, hlen.trans hkept, ?_⟩
  intro hid
  rw [← hopened, hsame hid]

/-- INTERNAL: **a header takes any payload along its route.**  The induction is on the hops that are
left, below the keys `above` of those that are behind.  SRC: sphinx/src/packet/mod.rs:96-120 -/
theorem run_route (hC : C.Lawful) (hlink : KeepsHeader link) {first : Node} {route : List Node}
    {secret : PrivateKey C} {delays : List Delay} {dest : Destination} {above : List RoutingKeys}
    {last : RoutingKeys} {core : EncapsulatedRoutingInformation} {payload : Payload} (passed : ℕ)
    (hroute : ∀ node ∈ first :: route, node.pubKey = (secretKey node.address).publicKey)
    (hdelays : delays.length = route.length + 1)
    (hlen : above.length + (route.length + 1) ≤ maxPathLength)
    (hcore : Core C (above ++ (hopKeys C secret (first :: route)).dropLast) last dest core)
    (hlast : (hopKeys C secret (first :: route)).getLast? = some last)
    (hpayload : lionessDigestResultSize < payload.bytes.length) :
    ∃ events opened,
      (network secretKey link).run (route.length + 1) ⟨passed, first.address,
        (⟨headerFor C secret (first :: route) delays core, payload⟩ : SphinxPacket).toBytes⟩ =
          .ok (events, none) ∧
      events.map Event.node = (first :: route).map Node.address ∧
      events.map Event.outcome = hopOutcomes (first :: route) delays dest opened ∧
      (∀ e ∈ events, e.received.length = headerSize + payload.bytes.length) ∧
      ((∀ i bytes, link i bytes = bytes) → removeLayers C
        ((hopKeys C secret (first :: route)).map RoutingKeys.payloadKey) payload = .ok opened) := by
  have hnode := hroute first List.mem_cons_self
  induction route generalizing first secret delays above payload passed with
  | nil =>
      obtain ⟨delay, rfl⟩ := List.length_eq_one_iff.mp hdelays
      cases hlast
      obtain ⟨received, opened, hreceived, hopened, -, hsame⟩ := received_opened hC hlink passed
        (headerFor C secret [first] [delay] core) (firstKeys C secret first).payloadKey hpayload
      have hstep := network_step (s := ⟨passed, first.address, _⟩)
        (node_final hreceived (process_final hC hnode hcore) hopened)
      refine ⟨_, opened, Machine.run_succ_of_halt hstep, rfl, rfl, ?_, ?_⟩
      · intro e he
        rw [List.mem_singleton.mp he]
        exact (hlink.length _ _).trans (packet_toBytes_length _)
      · intro hid
        change (payload.unwrap C (firstKeys C secret first).payloadKey >>= fun p => .ok p) = _
        rw [hsame hid, ok_bind]
  | cons next route ih =>
      obtain ⟨delay, delays, rfl⟩ := List.exists_cons_of_length_eq_add_one hdelays
      obtain ⟨nextDelay, delays, rfl⟩ := List.exists_cons_of_length_eq_add_one
        (Nat.succ.inj hdelays)
      have hlength : delays.length = route.length := by
        rw [List.length_cons, List.length_cons, List.length_cons] at hdelays
        omega
      obtain ⟨received, opened, hreceived, hopened, hopened_len, hsame⟩ := received_opened hC hlink
        passed (headerFor C secret (first :: next :: route) (delay :: nextDelay :: delays) core)
        (firstKeys C secret first).payloadKey hpayload
      have hstep := network_step (s := ⟨passed, first.address, _⟩)
        (node_forward hreceived (process_forward hC hnode hlength hlen hcore) hopened)
      have hrest : ∀ node ∈ next :: route, node.pubKey = (secretKey node.address).publicKey :=
        fun node hnode => hroute node (List.mem_cons_of_mem _ hnode)
      have hdelays_rest : (nextDelay :: delays).length = route.length + 1 := by
        rw [List.length_cons, hlength]
      have hlen_rest : (above ++ [firstKeys C secret first]).length + (route.length + 1) ≤
          maxPathLength := by
        rw [List.length_append, List.length_singleton]
        rw [List.length_cons] at hlen
        omega
      have hcore_rest : Core C ((above ++ [firstKeys C secret first]) ++
          (hopKeys C (nextSecret C secret first) (next :: route)).dropLast) last dest core := by
        rw [List.append_assoc]
        exact hcore
      rw [← hopened_len] at hpayload
      obtain ⟨events, final, hrun, hnodes, houtcomes, huniform, hlayers⟩ := ih (passed + 1) hrest
        hdelays_rest hlen_rest hcore_rest hlast hpayload
        (hrest next List.mem_cons_self)
      refine ⟨_, final, Machine.run_succ_of_step hstep hrun, ?_, ?_, ?_, ?_⟩
      · rw [List.map_cons, hnodes]
        rfl
      · rw [List.map_cons, houtcomes]
        rfl
      · intro e he
        rcases List.mem_cons.mp he with rfl | he
        · exact (hlink.length _ _).trans (packet_toBytes_length _)
        · rw [huniform e he, hopened_len]
      · intro hid
        rw [hopKeys_cons, List.map_cons, removeLayers, List.foldlM_cons, hsame hid, ok_bind]
        exact hlayers hid

/-! ## From the sender on -/

section Sender

variable {R : Type} [Rng R] {route : List Node} {delays : List Delay} {dest : Destination}
  {message : Bytes} {payloadSize : ℕ}

/-- INTERNAL: a message that fits is delivered behind any header that was made for the route, when
it is sealed with the keys that came with the header. -/
theorem header_delivers (hC : C.Lawful) (hlink : KeepsHeader link) {secret : PrivateKey C}
    (hroute : ∀ node ∈ route, node.pubKey = (secretKey node.address).publicKey)
    (hfits : Fits route delays) {rng : R} {header : SphinxHeader}
    {keys : List (Arr payloadKeySize)}
    (hheader : SphinxHeader.new C secret route delays dest rng = .ok (header, keys))
    (hsize : lionessDigestResultSize < payloadSize) (hmax : payloadSize ≤ isizeMax)
    (hmessage : message.length + payloadOverheadSize ≤ payloadSize) :
    ∃ payload, Payload.encapsulateMessage C message keys payloadSize = .ok payload ∧
      payload.bytes.length = payloadSize ∧
      Delivers secretKey link route delays dest message ⟨header, payload⟩ := by
  obtain ⟨core, last, hlast, hcore, hnew⟩ := headerNew_spec secret hfits dest rng
  rw [hheader] at hnew
  cases hnew
  obtain ⟨payload, hpayload, hlength, hlayers⟩ := encapsulateMessage_spec hC
    ((hopKeys C secret route).map RoutingKeys.payloadKey) hsize hmax hmessage
  refine ⟨payload, hpayload, hlength, ?_⟩
  cases route with
  | nil => exact absurd hfits.pos (Nat.not_lt_zero 0)
  | cons first route =>
      have hlen : ([] : List RoutingKeys).length + (route.length + 1) ≤ maxPathLength :=
        (Nat.zero_add _).trans_le hfits.le
      have hlong : lionessDigestResultSize < payload.bytes.length := by
        rwa [hlength]
      obtain ⟨events, opened, hrun, hnodes, houtcomes, huniform, hopened⟩ := run_route hC hlink
        0 hroute hfits.delays hlen hcore hlast hlong
      refine ⟨first, events, opened, rfl, hrun, hnodes, houtcomes, huniform, ?_⟩
      intro hid p
      have hplain := (hopened hid).symm.trans hlayers
      rw [Except.ok.injEq] at hplain
      rw [hplain]
      exact recoverPlaintext_finalPayload (Nat.lt_trans (by decide) hsize) hmessage p

/-- A packet is the header and the payload that are made for it.
SRC: sphinx/src/packet/builder.rs:31-47 -/
theorem buildPacket_of {secret : Option (PrivateKey C)} {rng : R} {header : SphinxHeader}
    {keys : List (Arr payloadKeySize)} {payload : Payload}
    (hheader : SphinxHeader.new C (secret.getD (PrivateKey.new rng)) route delays dest
      (genBytes 32 rng).2 = .ok (header, keys))
    (hpayload : Payload.encapsulateMessage C message keys payloadSize = .ok payload) :
    SphinxPacket.buildPacket C payloadSize secret message route dest delays rng =
      .ok ⟨header, payload⟩ := by
  rw [SphinxPacket.buildPacket]
  dsimp only
  rw [hheader, ok_bind]
  dsimp only
  rw [hpayload, ok_bind]
  rfl

/-- **A packet is delivered.**  Along a route of one to five nodes, each with the public key of the
node at its address, a packet with a message that fits its payload reports the next hop and the
delay to each forward node, and the destination to the last one, whatever becomes of its payload;
it has the same length on every link; and if nobody changes it, the message comes out.  Packets
are vectors, so they have at most `isize::MAX` bytes.
SRC: sphinx/src/packet/builder.rs:31-47 -/
theorem buildPacket_delivers (hC : C.Lawful) (hlink : KeepsHeader link)
    (hroute : ∀ node ∈ route, node.pubKey = (secretKey node.address).publicKey)
    (hfits : Fits route delays) (hsize : lionessDigestResultSize < payloadSize)
    (hmax : headerSize + payloadSize ≤ isizeMax)
    (hmessage : message.length + payloadOverheadSize ≤ payloadSize)
    (secret : Option (PrivateKey C)) (rng : R) :
    ∃ packet, SphinxPacket.buildPacket C payloadSize secret message route dest delays rng =
        .ok packet ∧ packet.len = headerSize + payloadSize ∧
      Delivers secretKey link route delays dest message packet := by
  obtain ⟨header, keys, hheader, -⟩ := headerNew_ok (secret.getD (PrivateKey.new rng)) hfits dest
    (genBytes 32 rng).2
  obtain ⟨payload, hpayload, hlength, hdelivers⟩ := header_delivers hC hlink hroute hfits hheader
    hsize (le_of_add_le_right hmax) hmessage
  exact ⟨⟨header, payload⟩, buildPacket_of hheader hpayload, congrArg (headerSize + ·) hlength,
    hdelivers⟩

end Sender

/-- A packet goes along three nodes when its payload is changed on the links, and when nobody
changes it the last node reads the message. -/
theorem buildPacket_delivers_sample :
    ∃ packet, SphinxPacket.buildPacket sampleCrates 64 none [13, 16] sampleRoute sampleDestination
        sampleDelays (0 : ℕ) = .ok packet ∧ packet.len = headerSize + 64 ∧
      Delivers sampleKey sampleLink sampleRoute sampleDelays sampleDestination [13, 16] packet ∧
      ∃ events payload, (network sampleKey fun _ bytes => bytes).run 3
          ⟨0, (sampleNode 5).address, packet.toBytes⟩ = .ok (events, none) ∧
        events.map Event.outcome = hopOutcomes sampleRoute sampleDelays sampleDestination payload ∧
        payload.recoverPlaintext .dev = .ok [13, 16] := by
  have hfits : Fits sampleRoute sampleDelays := ⟨by decide, by decide, rfl⟩
  have hunchanged : KeepsHeader fun _ bytes => bytes := ⟨fun _ _ => rfl, fun _ _ => rfl⟩
  have hdelivers : ∀ link, KeepsHeader link → ∃ packet, SphinxPacket.buildPacket sampleCrates 64
      none [13, 16] sampleRoute sampleDestination sampleDelays (0 : ℕ) = .ok packet ∧
        packet.len = headerSize + 64 ∧
        Delivers sampleKey link sampleRoute sampleDelays sampleDestination [13, 16] packet :=
    fun link hlink => buildPacket_delivers sampleCrates_lawful hlink sampleRoute_keys hfits
      (by decide) (by decide) (by decide) none 0
  obtain ⟨packet, hpacket, hlen, hchanged⟩ := hdelivers sampleLink sampleLink_keepsHeader
  obtain ⟨packet', hpacket', -, first, events, payload, hfirst, hrun, -, houtcomes, -, hread⟩ :=
    hdelivers _ hunchanged
  obtain rfl : packet = packet' := Except.ok.inj (hpacket.symm.trans hpacket')
  cases hfirst
  exact ⟨packet, hpacket, hlen, hchanged, events, payload, hrun, houtcomes,
    hread (fun _ _ => rfl) .dev⟩

end Eror.Analysis.Sphinx
