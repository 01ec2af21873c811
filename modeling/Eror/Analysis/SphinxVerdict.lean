import Eror.Analysis.SphinxHeaderSpec
import Eror.Analysis.SphinxFormats

/-!
# What a Sphinx node makes of any bytes

Nothing that a node receives makes it panic.  It refuses bytes that are too short, headers whose
MAC is not the computed one, routing information with an unknown flag and payloads that Lioness
refuses, and it looks for these in that order (`node_refuses_iff`).  What it sends on has as many
bytes as what it received, so along a run the length does not change, whoever made the first packet
(`network_robust`).
-/

set_option autoImplicit false

namespace Eror.Analysis.Sphinx

open Library Model.Sphinx

variable {C : Crates}

/-! ## Flags -/

variable (C) in
/-- The flag that a hop with the given key finds. -/
def flag (info : EncryptedRoutingInformation) (key : Arr streamCipherKeySize) : UInt8 :=
  info.head ^^^ (hopKeystream C key).headD 0

section Flags

variable {info : EncryptedRoutingInformation} {key : Arr streamCipherKeySize}

/-- The routing information without its layer begins with the flag. -/
theorem exists_raw (info : EncryptedRoutingInformation) (key : Arr streamCipherKeySize) :
    ∃ raw : Arr streamCipherOutputLength, raw.head = flag C info key ∧
      info.unwrap C key = EncryptedRoutingInformation.parse raw.toList := by
  have hks := hopKeystream_length (C := C) key
  have hlen : (streamPeel (· ^^^ ·) 0 fillerStepSizeIncrease (hopKeystream C key)
      info.toList).length = streamCipherOutputLength := by
    rw [streamPeel_length, hks]
    rw [List.Vector.toList_length, hks]
    rfl
  refine ⟨Arr.of _ hlen, ?_, unwrap_eq info key⟩
  rw [flag]
  generalize hopKeystream C key = stream at hks hlen ⊢
  obtain ⟨b, bs, rfl⟩ := List.Vector.exists_eq_cons info
  cases stream with
  | nil => cases hks
  | cons k ks => rfl

/-- With the flag of a forward hop the routing information is one.
SRC: sphinx/src/header/routing/nodes.rs:197-249 -/
theorem unwrap_of_forwardHop (h : flag C info key = forwardHop) :
    ∃ address delay next, info.unwrap C key = .ok (.forwardHop address delay next) := by
  obtain ⟨raw, hraw, hunwrap⟩ := exists_raw (C := C) info key
  rw [hunwrap, EncryptedRoutingInformation.parse, copyFromSlice_of raw.toList_length, ok_bind]
  exact ⟨_, _, _, if_pos (hraw.trans h)⟩

/-- With the flag of the last hop the routing information is one for it.
SRC: sphinx/src/header/routing/nodes.rs:197-212, 252-269 -/
theorem unwrap_of_finalHop (h : flag C info key = finalHop) :
    ∃ destination identifier, info.unwrap C key = .ok (.finalHop destination identifier) := by
  obtain ⟨raw, hraw, hunwrap⟩ := exists_raw (C := C) info key
  have hfinal : raw.head = finalHop := hraw.trans h
  have hforward : ¬ raw.head = forwardHop := by
    rw [hfinal]
    decide
  rw [hunwrap, EncryptedRoutingInformation.parse, copyFromSlice_of raw.toList_length, ok_bind]
  exact ⟨_, _, (if_neg hforward).trans (if_pos hfinal)⟩

/-- With any other flag it is refused, and the error names the flag.
SRC: sphinx/src/header/routing/nodes.rs:206-211 -/
theorem unwrap_of_unknown {f : UInt8} (hf : flag C info key = f) (h₁ : f ≠ forwardHop)
    (h₂ : f ≠ finalHop) : info.unwrap C key =
      fail .invalidRouting s!"tried to parse unknown routing flag: {f}" := by
  obtain ⟨raw, hraw, hunwrap⟩ := exists_raw (C := C) info key
  rw [hf] at hraw
  subst hraw
  rw [hunwrap, EncryptedRoutingInformation.parse, copyFromSlice_of raw.toList_length, ok_bind]
  exact (if_neg h₁).trans (if_neg h₂)

end Flags

/-! ## Refusals -/

/-- The MAC that a header has is the one that it must have for a hop with the given keys. -/
def Authentic (C : Crates) (header : SphinxHeader) (keys : RoutingKeys) : Prop :=
  header.routingInfo.integrityMac = HeaderIntegrityMac.compute C keys.headerIntegrityHmacKey
    header.routingInfo.encRoutingInformation.toList

/-- Whether a header is authentic can be decided. -/
instance (header : SphinxHeader) (keys : RoutingKeys) : Decidable (Authentic C header keys) :=
  inferInstanceAs (Decidable (_ = _))

/-- A flag of a forward hop or of the final one. -/
def KnownFlag (C : Crates) (header : SphinxHeader) (keys : RoutingKeys) : Prop :=
  flag C header.routingInfo.encRoutingInformation keys.streamCipherKey = forwardHop ∨
    flag C header.routingInfo.encRoutingInformation keys.streamCipherKey = finalHop

/-- A payload key that the hop has found, and everything that comes with it. -/
theorem process_ok {header : SphinxHeader} {sk : PrivateKey C} {keys : RoutingKeys}
    (hkeys : SphinxHeader.computeRoutingKeys C header.sharedSecret sk = keys)
    (hmac : Authentic C header keys) (hflag : KnownFlag C header keys) :
    (∃ next address delay, header.process C sk =
      .ok (.forwardHop next address delay keys.payloadKey)) ∨
    (∃ destination identifier, header.process C sk =
      .ok (.finalHop destination identifier keys.payloadKey)) := by
  rcases hflag with hforward | hfinal
  · obtain ⟨address, delay, next, hunwrap⟩ := unwrap_of_forwardHop hforward
    refine .inl ⟨⟨SphinxHeader.blindTheSharedSecret C header.sharedSecret keys.blindingFactor,
      next⟩, address, delay, ?_⟩
    rw [process_of_mac hkeys hmac, hunwrap]
    rfl
  · obtain ⟨destination, identifier, hunwrap⟩ := unwrap_of_finalHop hfinal
    refine .inr ⟨destination, identifier, ?_⟩
    rw [process_of_mac hkeys hmac, hunwrap]
    rfl

/-- Why a node with the given key refuses some bytes, and with which error. -/
inductive Refusal (sk : PrivateKey C) (bytes : Bytes) : Error → Prop
  | short (h : bytes.length < headerSize + payloadOverheadSize) :
      Refusal sk bytes (tooShort bytes.length)
  | mac (packet : SphinxPacket) (hpacket : SphinxPacket.fromBytes bytes = .ok packet)
      (h : ¬ Authentic C packet.header
        (SphinxHeader.computeRoutingKeys C packet.header.sharedSecret sk)) :
      Refusal sk bytes ⟨.invalidHeader, "failed to verify integrity MAC"⟩
  | flag (packet : SphinxPacket) (keys : RoutingKeys) (f : UInt8)
      (hpacket : SphinxPacket.fromBytes bytes = .ok packet)
      (hkeys : SphinxHeader.computeRoutingKeys C packet.header.sharedSecret sk = keys)
      (hmac : Authentic C packet.header keys)
      (hf : flag C packet.header.routingInfo.encRoutingInformation keys.streamCipherKey = f)
      (h₁ : f ≠ forwardHop) (h₂ : f ≠ finalHop) :
      Refusal sk bytes ⟨.invalidRouting, s!"tried to parse unknown routing flag: {f}"⟩
  | payload (packet : SphinxPacket) (keys : RoutingKeys) (err : String)
      (hpacket : SphinxPacket.fromBytes bytes = .ok packet)
      (hkeys : SphinxHeader.computeRoutingKeys C packet.header.sharedSecret sk = keys)
      (hmac : Authentic C packet.header keys) (hflag : KnownFlag C packet.header keys)
      (h : C.lionessDecrypt keys.payloadKey packet.payload.bytes = .error err) :
      Refusal sk bytes ⟨.invalidPayload, s!"error while unwrapping payload - {err}"⟩

/-- How a node refuses. -/
theorem node_of_refusal {sk : PrivateKey C} {bytes : Bytes} {e : Error} (h : Refusal sk bytes e) :
    node sk bytes = .error (.err e) := by
  cases h with
  | short h =>
      rw [node, packet_fromBytes_short h]
      rfl
  | mac packet hpacket h =>
      rw [node, hpacket, ok_bind, SphinxPacket.process, process_of_mac_ne rfl h]
      rfl
  | flag packet keys f hpacket hkeys hmac hf h₁ h₂ =>
      rw [node, hpacket, ok_bind, SphinxPacket.process, process_of_mac hkeys hmac,
        unwrap_of_unknown hf h₁ h₂]
      rfl
  | payload packet keys err hpacket hkeys hmac hflag h =>
      have hpayload : packet.payload.unwrap C keys.payloadKey =
          fail .invalidPayload s!"error while unwrapping payload - {err}" := by
        rw [Payload.unwrap, h]
      rw [node, hpacket, ok_bind, SphinxPacket.process]
      rcases process_ok hkeys hmac hflag with ⟨next, address, delay, hok⟩ | ⟨dest, identifier, hok⟩
      · rw [hok, ok_bind, SphinxPacket.unwrapPayload, hpayload]
        rfl
      · rw [hok, ok_bind, SphinxPacket.unwrapPayload, hpayload]
        rfl

/-- What a node sends on is as long as what it received. -/
def SameLength (bytes : Bytes) (next : Option (Arr nodeAddressLength × Bytes)) : Prop :=
  ∀ n, next = some n → n.2.length = bytes.length

/-- INTERNAL: **a node refuses or goes on.**  SRC: sphinx/src/packet/mod.rs:96-151 -/
theorem node_cases (hC : C.Lawful) (sk : PrivateKey C) (bytes : Bytes) :
    (∃ e, Refusal sk bytes e) ∨
      ∃ outcome next, node sk bytes = .ok (outcome, next) ∧ SameLength bytes next := by
  by_cases hlong : headerSize + payloadOverheadSize ≤ bytes.length
  · obtain ⟨packet, hpacket⟩ := exists_packet hlong
    have hlen : bytes.length = headerSize + packet.payload.bytes.length := by
      rw [(packet_fromBytes_eq_ok.mp hpacket).1, packet_toBytes_length]
      rfl
    generalize hkeys : SphinxHeader.computeRoutingKeys C packet.header.sharedSecret sk = keys
    by_cases hmac : Authentic C packet.header keys
    · by_cases hflag : KnownFlag C packet.header keys
      · cases hpayload : C.lionessDecrypt keys.payloadKey packet.payload.bytes with
        | error err => exact .inl ⟨_, .payload packet keys err hpacket hkeys hmac hflag hpayload⟩
        | ok data =>
            right
            have hopened : packet.payload.unwrap C keys.payloadKey = .ok ⟨data⟩ := by
              rw [Payload.unwrap, hpayload]
            rw [node, hpacket, ok_bind, SphinxPacket.process]
            rcases process_ok hkeys hmac hflag with
              ⟨next, address, delay, hok⟩ | ⟨dest, identifier, hok⟩
            · rw [hok, ok_bind, SphinxPacket.unwrapPayload, hopened]
              refine ⟨_, _, rfl, ?_⟩
              intro n hn
              cases hn
              rw [packet_toBytes_length, SphinxPacket.len, hlen]
              exact congrArg (headerSize + ·) (hC.lionessDecrypt_length _ _ _ hpayload)
            · rw [hok, ok_bind, SphinxPacket.unwrapPayload, hopened]
              refine ⟨_, _, rfl, ?_⟩
              intro n hn
              cases hn
      · obtain ⟨h₁, h₂⟩ := not_or.mp hflag
        exact .inl ⟨_, .flag packet keys _ hpacket hkeys hmac rfl h₁ h₂⟩
    · subst hkeys
      exact .inl ⟨_, .mac packet hpacket hmac⟩
  · exact .inl ⟨_, .short (Nat.lt_of_not_le hlong)⟩

/-- Bytes are refused for one of the four reasons. -/
theorem refusal_of_node_error (hC : C.Lawful) {sk : PrivateKey C} {bytes : Bytes} {f : Fault}
    (h : node sk bytes = .error f) : ∃ e, f = .err e ∧ Refusal sk bytes e := by
  rcases node_cases hC sk bytes with ⟨e, he⟩ | ⟨outcome, next, hok, -⟩
  · rw [node_of_refusal he, Except.error.injEq] at h
    exact ⟨e, h.symm, he⟩
  · rw [hok] at h
    cases h

/-- **When a node refuses, and with which error**: exactly for one of the four reasons. -/
theorem node_refuses_iff (hC : C.Lawful) (sk : PrivateKey C) (bytes : Bytes) (f : Fault) :
    node sk bytes = .error f ↔ ∃ e, f = .err e ∧ Refusal sk bytes e := by
  constructor
  · exact refusal_of_node_error hC
  · rintro ⟨e, rfl, he⟩
    exact node_of_refusal he

set_option maxRecDepth 4000 in
/-- Four hundred bytes have the right MAC for the node two, and an unknown flag. -/
theorem node_refuses_iff_sample :
    node (sampleKey (sampleNode 2).address) (List.replicate 400 208) =
      .error (.err ⟨.invalidRouting, "tried to parse unknown routing flag: 113"⟩) :=
  (node_refuses_iff sampleCrates_lawful _ _ _).mpr
    ⟨_, rfl, .flag _ _ 113 rfl rfl (by decide) rfl (by decide) (by decide)⟩

/-! ## Runs -/

section Runs

variable {secretKey : Arr nodeAddressLength → PrivateKey C} {link : ℕ → Bytes → Bytes}

/-- INTERNAL: a step of the network faults if and only if the node refuses what the link hands to
it.  SRC: sphinx/src/packet/mod.rs:96-151 -/
theorem network_step_error_iff (hC : C.Lawful) {s : InTransit} {f : Fault} :
    (network secretKey link).step s = .error f ↔
      ∃ e, f = .err e ∧ Refusal (secretKey s.node) (link s.passed s.bytes) e := by
  have hstep : (network secretKey link).step s =
      node (secretKey s.node) (link s.passed s.bytes) >>= fun r =>
        .ok (⟨s.node, link s.passed s.bytes, r.1⟩,
          r.2.map fun n => ⟨s.passed + 1, n.1, n.2⟩) := rfl
  constructor
  · intro h
    rcases node_cases hC (secretKey s.node) (link s.passed s.bytes) with
      ⟨e, he⟩ | ⟨outcome, next, hok, -⟩
    · rw [hstep, node_of_refusal he] at h
      exact ⟨e, (Except.error.inj h).symm, he⟩
    · rw [hstep, hok] at h
      cases h
  · rintro ⟨e, rfl, he⟩
    rw [hstep, node_of_refusal he]
    rfl

/-- INTERNAL: a step keeps the length. -/
theorem network_step_length (hC : C.Lawful)
    (hlink : ∀ i bytes, (link i bytes).length = bytes.length) {s : InTransit} {e : Event}
    {next : Option InTransit}
    (h : (network secretKey link).step s = .ok (e, next)) :
    e.received.length = s.bytes.length ∧ ∀ s', next = some s' →
      s'.bytes.length = s.bytes.length := by
  change (node (secretKey s.node) (link s.passed s.bytes) >>= _) = _ at h
  rcases node_cases hC (secretKey s.node) (link s.passed s.bytes) with
    ⟨e, he⟩ | ⟨outcome, sent, hok, hsame⟩
  · rw [node_of_refusal he] at h
    cases h
  · rw [hok] at h
    cases h
    refine ⟨hlink _ _, ?_⟩
    intro s' hs'
    obtain ⟨n, hn, rfl⟩ := Option.map_eq_some_iff.mp hs'
    exact (hsame n hn).trans (hlink _ _)

/-- **Nothing stops the network but a refusal, and no packet changes its length.**  From any bytes
at any node, with any changes on the links, a run of any length ends in a fault if and only if it
reaches a node, in fewer steps, that refuses what it receives, and the fault is the error that
the node refuses it with; and if the changes keep the length, then all that is received on the way
is as long as the bytes at the start. -/
theorem network_robust (hC : C.Lawful) (n : ℕ) (s : InTransit) :
    (∀ f, (network secretKey link).run n s = .error f ↔
      ∃ k < n, ∃ events s' e, (network secretKey link).run k s = .ok (events, some s') ∧
        f = .err e ∧ Refusal (secretKey s'.node) (link s'.passed s'.bytes) e) ∧
    ((∀ i bytes, (link i bytes).length = bytes.length) → ∀ events last,
      (network secretKey link).run n s = .ok (events, last) →
        (∀ e ∈ events, e.received.length = s.bytes.length) ∧
          ∀ s', last = some s' → s'.bytes.length = s.bytes.length) := by
  constructor
  · intro f
    rw [Machine.run_eq_error_iff]
    constructor
    · rintro ⟨k, hk, events, s', hrun, hfault⟩
      obtain ⟨e, he, hrefusal⟩ := (network_step_error_iff hC).mp hfault
      exact ⟨k, hk, events, s', e, hrun, he, hrefusal⟩
    · rintro ⟨k, hk, events, s', e, hrun, he, hrefusal⟩
      exact ⟨k, hk, events, s', hrun, (network_step_error_iff hC).mpr ⟨e, he, hrefusal⟩⟩
  · intro hlink events last h
    apply Machine.run_invariant (I := fun s' : InTransit => s'.bytes.length = s.bytes.length)
      (P := fun e : Event => e.received.length = s.bytes.length) _ rfl h
    intro s' e next hs' hstep
    obtain ⟨hreceived, hnext⟩ := network_step_length hC hlink hstep
    exact ⟨hreceived.trans hs', fun s'' hs'' => (hnext s'' hs'').trans hs'⟩

end Runs

set_option maxRecDepth 4000 in
/-- The node one passes four hundred bytes on, and the next node refuses their MAC. -/
theorem network_robust_sample :
    (network sampleKey sampleLink).run 3 ⟨0, (sampleNode 1).address, List.replicate 400 208⟩ =
      .error (.err ⟨.invalidHeader, "failed to verify integrity MAC"⟩) ∧
    ∃ event s', (network sampleKey sampleLink).run 1
        ⟨0, (sampleNode 1).address, List.replicate 400 208⟩ = .ok ([event], some s') ∧
      event.received.length = 400 ∧ s'.bytes.length = 400 := by
  constructor
  · obtain ⟨hfault, -⟩ := @network_robust sampleCrates sampleKey sampleLink sampleCrates_lawful
      3 ⟨0, (sampleNode 1).address, List.replicate 400 208⟩
    exact (hfault _).mpr ⟨1, by decide, _, _, _, rfl, rfl, .mac _ rfl (by decide)⟩
  · obtain ⟨-, huniform⟩ := @network_robust sampleCrates sampleKey sampleLink sampleCrates_lawful
      1 ⟨0, (sampleNode 1).address, List.replicate 400 208⟩
    obtain ⟨hevents, hlast⟩ := huniform sampleLink_keepsHeader.length _ _ rfl
    rw [List.length_replicate] at hevents
    refine ⟨_, _, rfl, hevents _ List.mem_cons_self, ?_⟩
    exact (hlast _ rfl).trans List.length_replicate

end Eror.Analysis.Sphinx
