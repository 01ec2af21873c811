import Eror.Analysis.SphinxDelivery
import Eror.Analysis.SphinxVerdict

/-!
# Processing with derived keys

`process_with_derived_keys` takes a hop's keys and the blinded secret from its caller, who may have
them from an earlier packet of a sender that uses its secret again.  With the right ones it does
what `process` does, except that it panics where `process` returns the error for an unknown flag,
and that it needs the blinded secret of a forward hop (`header_processWithDerivedKeys`).

They are the right ones for any packet that began with the same secret and came the same way
(`derivedKeys_reusable`).
-/

set_option autoImplicit false

namespace Eror.Analysis.Sphinx

open Library Model.Sphinx

variable {C : Crates}

/-! ## Unknown flags -/

/-- The error for an unknown flag becomes a panic, and everything else stays. -/
def flagPanics {α : Type} : Exec α → Exec α
  | .error (.err ⟨.invalidRouting, _⟩) => .error .panic
  | processed => processed

/-- INTERNAL: what is done afterwards and says nothing of flags may be done before or after. -/
theorem flagPanics_bind {α β : Type} {f : α → Exec β} (hf : ∀ a, flagPanics (f a) = f a)
    (x : Exec α) : (flagPanics x >>= f) = flagPanics (x >>= f) := by
  cases x with
  | error fault =>
      rcases fault with ⟨⟨kind, text⟩⟩ | _
      · cases kind <;> rfl
      · rfl
  | ok a => exact (hf a).symm

/-- Opening a payload says nothing of flags. -/
theorem flagPanics_unwrapPayload (payload : Payload) (processed : ProcessedHeader) :
    flagPanics (SphinxPacket.unwrapPayload C payload processed) =
      SphinxPacket.unwrapPayload C payload processed := by
  cases processed with
  | forwardHop next address delay key =>
      rw [SphinxPacket.unwrapPayload, Payload.unwrap]
      cases C.lionessDecrypt key payload.bytes <;> rfl
  | finalHop destination identifier key =>
      rw [SphinxPacket.unwrapPayload, Payload.unwrap]
      cases C.lionessDecrypt key payload.bytes <;> rfl

/-! ## One header -/

/-- A processed header gets the blinded secret that was given. -/
def withBlindedSecret (newBlindedSecret : Option PublicKey) :
    ProcessedHeader → Exec ProcessedHeader
  | .forwardHop header nextHopAddress delay payloadKey =>
      match newBlindedSecret with
      | some newBlindedSecret =>
          .ok (.forwardHop ⟨newBlindedSecret, header.routingInfo⟩ nextHopAddress delay payloadKey)
      | none => fail .invalidHeader "tried to process forward hop without blinded secret"
  | .finalHop destination identifier payloadKey =>
      .ok (.finalHop destination identifier payloadKey)

/-- INTERNAL: **one header.**  SRC: sphinx/src/header/mod.rs:88-139, 150-196 -/
theorem header_processWithDerivedKeys (header : SphinxHeader) (sk : PrivateKey C)
    (newBlindedSecret : Option PublicKey) {keys : RoutingKeys}
    (hkeys : SphinxHeader.computeRoutingKeys C header.sharedSecret sk = keys) :
    header.processWithDerivedKeys C newBlindedSecret keys =
      flagPanics (header.process C sk) >>= withBlindedSecret newBlindedSecret := by
  rw [SphinxHeader.processWithDerivedKeys]
  by_cases hmac : Authentic C header keys
  · have hverify : header.routingInfo.integrityMac.verify C keys.headerIntegrityHmacKey
        header.routingInfo.encRoutingInformation.toList = true := decide_eq_true hmac
    rw [hverify, process_of_mac hkeys hmac]
    change (SphinxHeader.orPanic (header.routingInfo.encRoutingInformation.unwrap C
      keys.streamCipherKey) >>= _) = _
    by_cases hflag : KnownFlag C header keys
    · rcases hflag with hforward | hfinal
      · obtain ⟨address, delay, next, hunwrap⟩ := unwrap_of_forwardHop hforward
        rw [hunwrap]
        cases newBlindedSecret <;> rfl
      · obtain ⟨destination, identifier, hunwrap⟩ := unwrap_of_finalHop hfinal
        rw [hunwrap]
        rfl
    · obtain ⟨h₁, h₂⟩ := not_or.mp hflag
      rw [unwrap_of_unknown rfl h₁ h₂]
      rfl
  · have hverify : header.routingInfo.integrityMac.verify C keys.headerIntegrityHmacKey
        header.routingInfo.encRoutingInformation.toList = false := decide_eq_false hmac
    rw [hverify, process_of_mac_ne hkeys hmac]
    rfl

/-- The point that a forward hop puts into the header.  SRC: sphinx/src/header/mod.rs:174-186 -/
theorem process_sharedSecret {header next : SphinxHeader} {sk : PrivateKey C}
    {address : Arr nodeAddressLength} {delay : Delay} {key : Arr payloadKeySize}
    (h : header.process C sk = .ok (.forwardHop next address delay key)) :
    next.sharedSecret = SphinxHeader.blindTheSharedSecret C header.sharedSecret
      (SphinxHeader.computeRoutingKeys C header.sharedSecret sk).blindingFactor := by
  by_cases hmac : Authentic C header
      (SphinxHeader.computeRoutingKeys C header.sharedSecret sk)
  · rw [process_of_mac rfl hmac] at h
    obtain ⟨info, -, hinfo⟩ := bind_eq_ok.mp h
    cases info with
    | forwardHop _ _ _ =>
        cases hinfo
        rfl
    | finalHop _ _ => cases hinfo
  · rw [process_of_mac_ne rfl hmac] at h
    cases h

/-! ## One packet -/

variable (C) in
/-- What a hop may remember of a packet: the keys and the blinded secret. -/
def derived (sharedSecret : PublicKey) (sk : PrivateKey C) : RoutingKeys × PublicKey :=
  let keys := SphinxHeader.computeRoutingKeys C sharedSecret sk
  (keys, SphinxHeader.blindTheSharedSecret C sharedSecret keys.blindingFactor)

/-- INTERNAL: with what was derived for the header, only the unknown flag makes a difference. -/
theorem header_processWithDerived (header : SphinxHeader) (sk : PrivateKey C) :
    header.processWithDerivedKeys C (some (derived C header.sharedSecret sk).2)
      (derived C header.sharedSecret sk).1 = flagPanics (header.process C sk) := by
  have hsame : (header.process C sk >>= withBlindedSecret
      (some (derived C header.sharedSecret sk).2)) = header.process C sk := by
    cases hprocess : header.process C sk with
    | error f => rfl
    | ok processed =>
        cases processed with
        | forwardHop next address delay key =>
            rw [derived, ← process_sharedSecret hprocess]
            rfl
        | finalHop _ _ _ => rfl
  have hflags : ∀ processed, flagPanics (withBlindedSecret
      (some (derived C header.sharedSecret sk).2) processed) =
        withBlindedSecret (some (derived C header.sharedSecret sk).2) processed := by
    rintro (_ | _) <;> rfl
  rw [← hsame, ← flagPanics_bind hflags]
  exact header_processWithDerivedKeys header sk _ rfl

/-- INTERNAL: **one packet.**  SRC: sphinx/src/packet/mod.rs:63-120 -/
theorem packet_processWithDerived (packet : SphinxPacket) (sk : PrivateKey C) :
    packet.processWithDerivedKeys C (some (derived C packet.header.sharedSecret sk).2)
      (derived C packet.header.sharedSecret sk).1 = flagPanics (packet.process C sk) := by
  rw [SphinxPacket.processWithDerivedKeys, SphinxPacket.process, header_processWithDerived]
  exact flagPanics_bind (flagPanics_unwrapPayload packet.payload) _

/-! ## Runs -/

section Runs

variable {secretKey : Arr nodeAddressLength → PrivateKey C} {link link' : ℕ → Bytes → Bytes}

/-- What a node has read when it does not refuse, and the point that it sends on. -/
theorem node_ok {sk : PrivateKey C} {bytes : Bytes} {outcome : Outcome}
    {next : Option (Arr nodeAddressLength × Bytes)} (h : node sk bytes = .ok (outcome, next)) :
    ∃ packet, SphinxPacket.fromBytes bytes = .ok packet ∧ ∀ n, next = some n →
      n.2.take 32 = (derived C packet.header.sharedSecret sk).2.toList := by
  rw [node] at h
  obtain ⟨packet, hpacket, h⟩ := bind_eq_ok.mp h
  obtain ⟨processed, hprocessed, h⟩ := bind_eq_ok.mp h
  refine ⟨packet, hpacket, ?_⟩
  cases processed with
  | finalHop _ _ _ =>
      cases h
      intro n hn
      cases hn
  | forwardHop sent address delay =>
      cases h
      intro n hn
      cases hn
      rw [SphinxPacket.process] at hprocessed
      obtain ⟨header, hheader, hpayload⟩ := bind_eq_ok.mp hprocessed
      cases header with
      | finalHop _ _ _ =>
          obtain ⟨opened, -, hsent⟩ := bind_eq_ok.mp hpayload
          cases hsent
      | forwardHop next' address' delay' key =>
          obtain ⟨opened, -, hsent⟩ := bind_eq_ok.mp hpayload
          cases hsent
          rw [derived, ← process_sharedSecret hheader, packet_toBytes_take]

/-- A link that keeps the header keeps the point that it begins with. -/
theorem take_sharedSecret (h : KeepsHeader link) (i : ℕ) (bytes : Bytes) :
    (link i bytes).take 32 = bytes.take 32 := by
  have htake := congrArg (List.take 32) (h.take i bytes)
  rwa [List.take_take, List.take_take, Nat.min_eq_left (by decide)] at htake

/-- INTERNAL: bytes that begin alike are read as packets with the same point, after any links. -/
theorem sharedSecret_of_take (hlink : KeepsHeader link) (hlink' : KeepsHeader link') {i i' : ℕ}
    {bytes bytes' : Bytes} (h : bytes.take 32 = bytes'.take 32) {packet packet' : SphinxPacket}
    (hpacket : SphinxPacket.fromBytes (link i bytes) = .ok packet)
    (hpacket' : SphinxPacket.fromBytes (link' i' bytes') = .ok packet') :
    packet.header.sharedSecret = packet'.header.sharedSecret := by
  apply List.Vector.toList_injective
  rw [← packet_toBytes_take, ← packet_toBytes_take, ← (packet_fromBytes_eq_ok.mp hpacket).1,
    ← (packet_fromBytes_eq_ok.mp hpacket').1, take_sharedSecret hlink, take_sharedSecret hlink', h]

/-- A turn, and what is sent on. -/
theorem network_step_ok {s t : InTransit} {e : Event}
    (h : (network secretKey link).step s = .ok (e, some t)) :
    e.node = s.node ∧ ∃ sent, node (secretKey s.node) (link s.passed s.bytes) =
      .ok (e.outcome, some (t.node, sent)) ∧ t.bytes = sent := by
  change (node (secretKey s.node) (link s.passed s.bytes) >>= _) = _ at h
  obtain ⟨⟨outcome, next⟩, hnode, hr⟩ := bind_eq_ok.mp h
  cases next with
  | none => cases hr
  | some n =>
      cases hr
      exact ⟨rfl, n.2, hnode, rfl⟩

/-- INTERNAL: **the points stay the same** along the same nodes. -/
theorem take_sharedSecret_run (hlink : KeepsHeader link) (hlink' : KeepsHeader link') {n : ℕ}
    {s s' t t' : InTransit} {events events' : List Event}
    (hstart : s.bytes.take 32 = s'.bytes.take 32)
    (hrun : (network secretKey link).run n s = .ok (events, some t))
    (hrun' : (network secretKey link').run n s' = .ok (events', some t'))
    (hnodes : events.map Event.node = events'.map Event.node) :
    t.bytes.take 32 = t'.bytes.take 32 := by
  apply Machine.run_together (I := fun s s' : InTransit => s.bytes.take 32 = s'.bytes.take 32) _
    hstart hrun hrun' hnodes
  intro s s' e e' t t' hsame hstep hstep' hnode
  obtain ⟨hat, sent, hok, rfl⟩ := network_step_ok hstep
  obtain ⟨hat', sent', hok', rfl⟩ := network_step_ok hstep'
  obtain ⟨packet, hpacket, hsent⟩ := node_ok hok
  obtain ⟨packet', hpacket', hsent'⟩ := node_ok hok'
  rw [hat, hat'] at hnode
  have hpoint := sharedSecret_of_take hlink hlink' hsame hpacket hpacket'
  have hfirst := hsent _ rfl
  have hsecond := hsent' _ rfl
  dsimp only at hfirst hsecond
  rw [hfirst, hsecond, hpoint, hnode]

/-- **Derived keys can be used again.**  When two packets, from whatever senders, start with the
same point and have come along the same nodes to the same node, then what this node derives from the
first one makes `process_with_derived_keys` do with the second one what `process` does, errors
included, except that it panics where `process` returns the error for an unknown flag.  The
messages, delays and destinations may differ, and payloads may have been changed on the way.
SRC: sphinx/src/header/mod.rs:82-196, sphinx/src/packet/mod.rs:57-120 -/
theorem derivedKeys_reusable (hlink : KeepsHeader link) (hlink' : KeepsHeader link') {n : ℕ}
    {s s' t t' : InTransit} {events events' : List Event}
    (hstart : s.bytes.take 32 = s'.bytes.take 32)
    (hrun : (network secretKey link).run n s = .ok (events, some t))
    (hrun' : (network secretKey link').run n s' = .ok (events', some t'))
    (hnodes : events.map Event.node = events'.map Event.node) (hnode : t.node = t'.node)
    {packet packet' : SphinxPacket}
    (hpacket : SphinxPacket.fromBytes (link t.passed t.bytes) = .ok packet)
    (hpacket' : SphinxPacket.fromBytes (link' t'.passed t'.bytes) = .ok packet') :
    packet'.processWithDerivedKeys C
        (some (derived C packet.header.sharedSecret (secretKey t.node)).2)
        (derived C packet.header.sharedSecret (secretKey t.node)).1 =
      flagPanics (packet'.process C (secretKey t'.node)) := by
  have hsame := take_sharedSecret_run hlink hlink' hstart hrun hrun' hnodes
  rw [sharedSecret_of_take hlink hlink' hsame hpacket hpacket', hnode]
  exact packet_processWithDerived packet' (secretKey t'.node)

end Runs

/-- The node that a run begins with has processed a packet. -/
theorem exists_processed_of_run {secretKey : Arr nodeAddressLength → PrivateKey C}
    {link : ℕ → Bytes → Bytes} {n : ℕ} {s : InTransit} {events : List Event}
    {last : Option InTransit} (hrun : (network secretKey link).run (n + 1) s = .ok (events, last)) :
    ∃ e rest packet processed, events = e :: rest ∧ e.node = s.node ∧
      SphinxPacket.fromBytes (link s.passed s.bytes) = .ok packet ∧
      packet.process C (secretKey s.node) = .ok processed := by
  have hstep : ∃ e next rest, (network secretKey link).step s = .ok (e, next) ∧
      events = e :: rest := by
    obtain ⟨e, hstep, rfl, -⟩ | ⟨e, s₁, rest, hstep, -, rfl⟩ := Machine.run_succ_cases hrun
    · exact ⟨e, none, [], hstep, rfl⟩
    · exact ⟨e, some s₁, rest, hstep, rfl⟩
  obtain ⟨e, next, rest, hstep, rfl⟩ := hstep
  change (node (secretKey s.node) (link s.passed s.bytes) >>= _) = _ at hstep
  obtain ⟨r, hnode, hr⟩ := bind_eq_ok.mp hstep
  obtain ⟨packet, hpacket, hnode⟩ := bind_eq_ok.mp hnode
  obtain ⟨processed, hprocessed, -⟩ := bind_eq_ok.mp hnode
  cases hr
  exact ⟨_, rest, packet, processed, rfl, rfl, hpacket, hprocessed⟩

/-- The second node of the sample route has processed a packet. -/
theorem exists_secondTurn {secretKey : Arr nodeAddressLength → PrivateKey C}
    {link : ℕ → Bytes → Bytes} {n : ℕ} {s : InTransit} {events : List Event}
    {address address' : Arr nodeAddressLength} {rest : List (Arr nodeAddressLength)}
    (hrun : (network secretKey link).run (n + 2) s = .ok (events, none))
    (hnodes : events.map Event.node = address :: address' :: rest) :
    ∃ event t packet processed, (network secretKey link).run 1 s = .ok ([event], some t) ∧
      event.node = address ∧ t.node = address' ∧
      SphinxPacket.fromBytes (link t.passed t.bytes) = .ok packet ∧
      packet.process C (secretKey t.node) = .ok processed := by
  obtain ⟨e, -, rfl, -⟩ | ⟨e, t, events', hstep, hrest, rfl⟩ := Machine.run_succ_cases hrun
  · cases hnodes
  obtain ⟨e', rest', packet, processed, rfl, he', hpacket, hprocessed⟩ :=
    exists_processed_of_run hrest
  obtain ⟨he, hnodes⟩ := List.cons.inj hnodes
  obtain ⟨he'', -⟩ := List.cons.inj hnodes
  exact ⟨e, t, packet, processed, Machine.run_succ_of_step hstep rfl, he, he'.symm.trans he'',
    hpacket, hprocessed⟩

set_option maxRecDepth 4000 in
/-- Two packets with different messages, delays and destinations, under the same secret, come to
the second node, where what was derived for the first one opens the second one; and a node that
finds an unknown flag panics. -/
theorem derivedKeys_reusable_sample :
    (∃ (packet packet' : SphinxPacket) (keys keys' : List (Arr payloadKeySize))
      (event event' : Event) (t t' : InTransit) (received received' : SphinxPacket)
      (processed : ProcessedPacket),
      SphinxHeader.new sampleCrates ⟨(7 : UInt8)⟩ sampleRoute sampleDelays sampleDestination
        (0 : ℕ) = .ok (packet.header, keys) ∧
      SphinxHeader.new sampleCrates ⟨(7 : UInt8)⟩ sampleRoute [40, 50, 60]
        ⟨List.Vector.replicate _ 1, List.Vector.replicate _ 2⟩ (9 : ℕ) =
          .ok (packet'.header, keys') ∧
      (network sampleKey sampleLink).run 1 ⟨0, (sampleNode 5).address, packet.toBytes⟩ =
        .ok ([event], some t) ∧
      (network sampleKey sampleLink).run 1 ⟨0, (sampleNode 5).address, packet'.toBytes⟩ =
        .ok ([event'], some t') ∧
      SphinxPacket.fromBytes (sampleLink t.passed t.bytes) = .ok received ∧
      SphinxPacket.fromBytes (sampleLink t'.passed t'.bytes) = .ok received' ∧
      received'.process sampleCrates (sampleKey t'.node) = .ok processed ∧
      received'.processWithDerivedKeys sampleCrates
        (some (derived sampleCrates received.header.sharedSecret (sampleKey t.node)).2)
        (derived sampleCrates received.header.sharedSecret (sampleKey t.node)).1 =
          .ok processed) ∧
    ∃ packet packet',
      SphinxPacket.fromBytes (List.replicate 400 208) = .ok packet ∧
      SphinxPacket.fromBytes (List.replicate 365 208) = .ok packet' ∧
      packet'.processWithDerivedKeys sampleCrates
        (some (derived sampleCrates packet.header.sharedSecret
          (sampleKey (sampleNode 2).address)).2)
        (derived sampleCrates packet.header.sharedSecret (sampleKey (sampleNode 2).address)).1 =
          .error .panic := by
  constructor
  · have hfits : Fits sampleRoute sampleDelays := ⟨by decide, by decide, rfl⟩
    have hfits' : Fits sampleRoute [40, 50, 60] := ⟨by decide, by decide, rfl⟩
    obtain ⟨core, last, -, -, hnew⟩ := headerNew_spec (C := sampleCrates) ⟨(7 : UInt8)⟩ hfits
      sampleDestination (0 : ℕ)
    obtain ⟨core', last', -, -, hnew'⟩ := headerNew_spec (C := sampleCrates) ⟨(7 : UInt8)⟩ hfits'
      ⟨List.Vector.replicate _ 1, List.Vector.replicate _ 2⟩ (9 : ℕ)
    have hmessage : ([13, 16] : Bytes).length + payloadOverheadSize ≤ 64 := by decide
    have hmessage' : ([7] : Bytes).length + payloadOverheadSize ≤ 64 := by decide
    obtain ⟨payload, -, -, first, events, opened, hfirst, hrun, hnodes, -⟩ := header_delivers
      sampleCrates_lawful sampleLink_keepsHeader sampleRoute_keys hfits hnew (by decide)
      (by decide) hmessage
    obtain ⟨payload', -, -, first', events', opened', hfirst', hrun', hnodes', -⟩ :=
      header_delivers sampleCrates_lawful sampleLink_keepsHeader sampleRoute_keys hfits' hnew'
        (by decide) (by decide) hmessage'
    cases hfirst
    cases hfirst'
    obtain ⟨event, t, received, _, hone, he, ht, hreceived, -⟩ := exists_secondTurn hrun hnodes
    obtain ⟨event', t', received', processed, hone', he', ht', hreceived', hprocessed⟩ :=
      exists_secondTurn hrun' hnodes'
    refine ⟨_, _, _, _, event, event', t, t', received, received', processed, hnew, hnew', hone,
      hone', hreceived, hreceived', hprocessed, ?_⟩
    rw [derivedKeys_reusable sampleLink_keepsHeader sampleLink_keepsHeader _ hone hone'
      (congrArg (fun a => [a]) (he.trans he'.symm)) (ht.trans ht'.symm) hreceived hreceived',
      hprocessed]
    · rfl
    · rw [packet_toBytes_take, packet_toBytes_take]
  · have hreuse := fun packet packet' => @derivedKeys_reusable sampleCrates sampleKey sampleLink
      sampleLink sampleLink_keepsHeader sampleLink_keepsHeader 0
      ⟨0, (sampleNode 2).address, List.replicate 400 208⟩
      ⟨0, (sampleNode 2).address, List.replicate 365 208⟩ _ _ [] [] rfl rfl rfl rfl rfl packet
      packet'
    exact ⟨_, _, rfl, rfl, (hreuse _ _ rfl rfl).trans rfl⟩

end Eror.Analysis.Sphinx
