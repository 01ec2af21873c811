import Eror.Analysis.SphinxDelivery

/-!
# Reply blocks, and what senders panic at

A reply block is a header with the keys that came with it.  Written to bytes and read again it is
the same, and whoever uses it sends a message along its route (`surb_delivers`).

`SURB::new` returns an error for an empty route or a wrong number of delays, and the packet builder
panics on both.  Neither looks whether the route is too long, and both panic when it is.  Nor is
the payload size compared with what a vector can hold, so a size beyond it is a panic of whoever
encapsulates a message that passes the other checks (`senders_panic_iff`).
-/

set_option autoImplicit false

namespace Eror.Analysis.Sphinx

open Library Model.Sphinx
open Model (Rng genBytes)

variable {C : Crates} {R : Type} [Rng R] {route : List Node} {delays : List Delay}
  {dest : Destination} {message : Bytes} {payloadSize : ℕ}

/-! ## Making a reply block -/

/-- A route that fits gets a reply block: a header, the address of the first node, and a payload key
for each node.  SRC: sphinx/src/surb/mod.rs:61-93 -/
theorem surbNew_of_fits (secret : PrivateKey C) (hfits : Fits route delays) (dest : Destination)
    (rng : R) :
    ∃ first header keys, route.head? = some first ∧
      SphinxHeader.new C secret route delays dest rng = .ok (header, keys) ∧
      keys.length = route.length ∧
      SURB.new C secret ⟨route, delays, dest⟩ rng = .ok ⟨header, first.address, keys⟩ := by
  obtain ⟨header, keys, hnew, hkeys⟩ := headerNew_ok secret hfits dest rng
  cases route with
  | nil => exact absurd hfits.pos (Nat.not_lt_zero 0)
  | cons first route =>
      refine ⟨first, header, keys, rfl, hnew, hkeys, ?_⟩
      rw [SURB.new]
      dsimp only
      rw [if_neg (not_not.mpr hfits.delays.symm), hnew, ok_bind]
      rfl

/-- The packet has the header of the reply block and the payload that is made for it.
SRC: sphinx/src/surb/mod.rs:98-111 -/
theorem useSurb_of_payload {surb : SURB} {payload : Payload}
    (h : Payload.encapsulateMessage C message surb.payloadKeys payloadSize = .ok payload) :
    surb.useSurb C message payloadSize = .ok (⟨surb.header, payload⟩, surb.firstHopAddress) := by
  rw [SURB.useSurb, h]
  rfl

/-- **A reply block delivers.**  One that was made for a route of one to five nodes, each with the
public key of the node at its address, survives being written to bytes; and every message that fits
the payload is sent to the first node of the route and delivered to the block's destination, as a
packet of its sender would be. -/
theorem surb_delivers {secretKey : Arr nodeAddressLength → PrivateKey C} (hC : C.Lawful)
    (hroute : ∀ node ∈ route, node.pubKey = (secretKey node.address).publicKey)
    (hfits : Fits route delays) (dest : Destination) (secret : PrivateKey C) (rng : R) :
    ∃ surb, SURB.new C secret ⟨route, delays, dest⟩ rng = .ok surb ∧
      SURB.fromBytes surb.toBytes = .ok surb ∧
      ∀ (message : Bytes) (payloadSize : ℕ) (link : ℕ → Bytes → Bytes),
        lionessDigestResultSize < payloadSize → headerSize + payloadSize ≤ isizeMax →
        message.length + payloadOverheadSize ≤ payloadSize → KeepsHeader link →
        ∃ packet, surb.useSurb C message payloadSize = .ok (packet, surb.firstHopAddress) ∧
          route.head?.map Node.address = some surb.firstHopAddress ∧
          packet.len = headerSize + payloadSize ∧
          Delivers secretKey link route delays dest message packet := by
  obtain ⟨first, header, keys, hfirst, hheader, hkeys, hnew⟩ := surbNew_of_fits secret hfits
    dest rng
  have hne : keys ≠ [] := List.ne_nil_of_length_pos (by rw [hkeys]; exact hfits.pos)
  refine ⟨_, hnew, surb_fromBytes_eq_ok.mpr ⟨rfl, hne⟩, ?_⟩
  intro message payloadSize link hsize hmax hmessage hlink
  obtain ⟨payload, hpayload, hlength, hdelivers⟩ := header_delivers hC hlink hroute hfits hheader
    hsize (le_of_add_le_right hmax) hmessage
  refine ⟨_, useSurb_of_payload hpayload, ?_, congrArg (headerSize + ·) hlength, hdelivers⟩
  rw [hfirst, Option.map_some]

/-- A reply block for three nodes delivers a message of two bytes. -/
theorem surb_delivers_sample :
    ∃ surb, SURB.new sampleCrates ⟨(7 : UInt8)⟩ ⟨sampleRoute, sampleDelays, sampleDestination⟩
        (0 : ℕ) = .ok surb ∧
      ∃ packet, surb.useSurb sampleCrates [13, 16] 64 = .ok (packet, surb.firstHopAddress) ∧
        Delivers sampleKey sampleLink sampleRoute sampleDelays sampleDestination [13, 16]
          packet := by
  have hfits : Fits sampleRoute sampleDelays := ⟨by decide, by decide, rfl⟩
  obtain ⟨surb, hnew, -, hdelivers⟩ := surb_delivers sampleCrates_lawful sampleRoute_keys hfits
    sampleDestination ⟨(7 : UInt8)⟩ (0 : ℕ)
  obtain ⟨packet, huse, -, -, hpacket⟩ := hdelivers [13, 16] 64 sampleLink (by decide) (by decide)
    (by decide) sampleLink_keepsHeader
  exact ⟨surb, hnew, packet, huse, hpacket⟩

/-! ## Panics -/

/-- A call does not panic when neither of its parts does. -/
theorem bind_ne_panic {α β : Type} {x : Exec α} {f : α → Exec β} (hx : x ≠ .error .panic)
    (hf : ∀ a, f a ≠ .error .panic) : (x >>= f) ≠ .error .panic := by
  cases x with
  | error e =>
      rw [error_bind]
      intro h
      cases h
      exact hx rfl
  | ok a => exact hf a

/-- A layer that cannot be put on is an error.  SRC: sphinx/src/payload/mod.rs:104-118 -/
theorem addEncryptionLayer_no_panic (payload : Payload) (key : Arr payloadKeySize) :
    payload.addEncryptionLayer C key ≠ .error .panic := by
  rw [Payload.addEncryptionLayer]
  cases C.lionessEncrypt key payload.bytes with
  | ok bytes => exact ok_ne_error
  | error err => exact fail_ne_panic

/-- So are several layers. -/
theorem addLayers_no_panic (keys : List (Arr payloadKeySize)) (payload : Payload) :
    addLayers C keys payload ≠ .error .panic := by
  induction keys with
  | nil => exact ok_ne_error
  | cons key keys ih =>
      rw [addLayers_cons]
      exact bind_ne_panic ih fun inner => addEncryptionLayer_no_panic inner key

/-- INTERNAL: a size and a length that fit are accepted, and otherwise an error is returned.
SRC: sphinx/src/payload/mod.rs:58-86 -/
theorem validateParameters_cases (payloadSize length : ℕ) :
    (lionessDigestResultSize ≤ payloadSize ∧ length + payloadOverheadSize ≤ payloadSize) ∧
      Payload.validateParameters payloadSize length = .ok () ∨
    ¬ (lionessDigestResultSize ≤ payloadSize ∧ length + payloadOverheadSize ≤ payloadSize) ∧
      ∃ e, Payload.validateParameters payloadSize length = .error (.err e) := by
  by_cases hfits : lionessDigestResultSize ≤ payloadSize ∧
      length + payloadOverheadSize ≤ payloadSize
  · exact .inl ⟨hfits, validateParameters_ok hfits.1 hfits.2⟩
  refine .inr ⟨hfits, ?_⟩
  rw [Payload.validateParameters]
  by_cases hoverhead : payloadSize < payloadOverheadSize
  · exact ⟨_, if_pos hoverhead⟩
  by_cases hsize : payloadSize < lionessDigestResultSize
  · exact ⟨_, (if_neg hoverhead).trans (if_pos hsize)⟩
  rw [if_neg hoverhead, if_neg hsize, sub_of_le (Nat.le_of_not_lt hoverhead), ok_bind,
    if_pos (by omega)]
  exact ⟨_, rfl⟩

/-- The payload is asked to be longer than any vector, and this is noticed neither in the size nor
in the length of the message. -/
def TooLarge (message : Bytes) (payloadSize : ℕ) : Prop :=
  isizeMax < payloadSize ∧ message.length + payloadOverheadSize ≤ payloadSize

/-- INTERNAL: **when a payload cannot be made**: the vector for it would be too long.
SRC: sphinx/src/payload/mod.rs:39-53, 91-101 -/
theorem encapsulateMessage_panic_iff (message : Bytes) (keys : List (Arr payloadKeySize))
    (payloadSize : ℕ) :
    Payload.encapsulateMessage C message keys payloadSize = .error .panic ↔
      TooLarge message payloadSize := by
  rw [Payload.encapsulateMessage]
  rcases validateParameters_cases payloadSize message.length with
    ⟨hfits, hvalid⟩ | ⟨hfits, e, he⟩
  · rw [hvalid, ok_bind]
    by_cases hmax : payloadSize ≤ isizeMax
    · rw [Payload.setFinalPayload, withCapacity_of_le hmax]
      exact iff_of_false (addLayers_no_panic keys _) fun h => Nat.not_lt.mpr hmax h.1
    · rw [Payload.setFinalPayload, withCapacity_of_lt (Nat.lt_of_not_le hmax)]
      exact iff_of_true rfl ⟨Nat.lt_of_not_le hmax, hfits.2⟩
  · rw [he, error_bind]
    refine iff_of_false ?_ ?_
    · intro h
      cases h
    · intro h
      exact hfits ⟨le_trans (by decide) h.1.le, h.2⟩

/-- Nothing that follows makes a panic or keeps one from happening. -/
theorem bind_return_panic_iff {α β : Type} {x : Exec α} {f : α → β} :
    (do let a ← x; return f a : Exec β) = .error .panic ↔ x = .error .panic := by
  cases x with
  | error e =>
      rw [error_bind, Except.error.injEq, Except.error.injEq]
  | ok a => exact iff_of_false ok_ne_error ok_ne_error

/-- **When senders panic.**  The packet builder panics exactly when the route is empty or has more
than five hops, or the delays are not as many, or the payload would be longer than any vector;
making a reply block exactly when there are as many delays as hops and more than five; using a
reply block exactly when the payload would be longer than any vector.
SRC: sphinx/src/packet/builder.rs:31-47, sphinx/src/surb/mod.rs:61-111 -/
theorem senders_panic_iff (payloadSize : ℕ) (secret : Option (PrivateKey C))
    (surbSecret : PrivateKey C) (message : Bytes) (route : List Node) (dest : Destination)
    (delays : List Delay) (rng : R) :
    (SphinxPacket.buildPacket C payloadSize secret message route dest delays rng =
        .error .panic ↔ ¬ Fits route delays ∨ TooLarge message payloadSize) ∧
      (SURB.new C surbSecret ⟨route, delays, dest⟩ rng = .error .panic ↔
        delays.length = route.length ∧ maxPathLength < route.length) ∧
      ∀ surb : SURB, surb.useSurb C message payloadSize = .error .panic ↔
        TooLarge message payloadSize := by
  refine ⟨?_, ?_, ?_⟩
  · rw [SphinxPacket.buildPacket]
    dsimp only
    by_cases hfits : Fits route delays
    · obtain ⟨header, keys, hnew, -⟩ := headerNew_ok (secret.getD (PrivateKey.new rng)) hfits dest
        (genBytes 32 rng).2
      rw [hnew, ok_bind]
      dsimp only
      rw [bind_return_panic_iff, encapsulateMessage_panic_iff]
      exact ⟨.inr, fun h => h.resolve_left (not_not.mpr hfits)⟩
    · rw [headerNew_panics _ hfits]
      exact ⟨fun _ => .inl hfits, fun _ => rfl⟩
  · by_cases hfits : Fits route delays
    · obtain ⟨first, header, keys, -, -, -, hnew⟩ := surbNew_of_fits surbSecret hfits
        dest rng
      rw [hnew]
      exact iff_of_false ok_ne_error fun h => absurd hfits.le (Nat.not_le_of_lt h.2)
    · cases route with
      | nil =>
          rw [SURB.new]
          exact iff_of_false fail_ne_panic fun h => absurd h.2 (Nat.not_lt_zero _)
      | cons first route =>
          rw [SURB.new]
          dsimp only
          by_cases hdelays : (first :: route).length = delays.length
          · rw [if_neg (not_not.mpr hdelays), headerNew_panics _ hfits]
            refine ⟨fun _ => ⟨hdelays.symm, ?_⟩, fun _ => rfl⟩
            by_contra hle
            exact hfits ⟨Nat.succ_pos _, Nat.le_of_not_lt hle, hdelays.symm⟩
          · rw [if_pos hdelays]
            exact iff_of_false fail_ne_panic fun h => hdelays h.1.symm
  · intro surb
    rw [SURB.useSurb, bind_return_panic_iff, encapsulateMessage_panic_iff]

end Eror.Analysis.Sphinx
