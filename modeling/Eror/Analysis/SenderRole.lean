import Eror.Analysis.ProcessRoles
import Eror.Analysis.WrapLayer
import Eror.Interface.SamplePrimitives

/-!
# The sender's branch of `proc_onion`

What the original sender does with a reply, as a function of the two counters it reads out of
its own meta-information.  With counters in range it accepts exactly the replies that the
receiver and the backward hops produce (`procOnion_sender_iff`).  The counters are never
checked, though: they are whatever the builder of the onion wrote, and
`procOnionMetered_bounded_iff` says for which of them the loop and the two subtractions stay
within the limits of the format.
-/

set_option autoImplicit false

namespace Eror.Analysis

open Library Model

variable {R : Type} {P : Primitives R} {w : ℕ}

/-! ## Genuine replies -/

/-- The backward section of a genuine reply when it reaches the sender: the receiver's
`ae_enc` under the tag `ex`, then one `ae_unwrap` at each backward hop but the sender itself.
SRC: src/lib.rs:326-339, 358-370, 640-643 -/
def genuineReply (P : Primitives R) (masterKey : P.SymmetricKey) (nForward nBackward : ℕ)
    (ex : P.Tag) (payload : Bytes) : Exec (Backward P) :=
  ((List.range (nBackward - 1)).map fun i =>
      P.deriveKey (.backward (UInt32.ofNat i)) masterKey).foldlM (fun b key => aeUnwrap P key b)
    (aeEnc P (P.deriveKey (.forward (UInt32.ofNat (nForward - 1))) masterKey) ex payload)

/-- A backward section is the genuine one if and only if the sender opens it. -/
theorem genuineReply_eq_ok_iff (hP : P.Lawful) (hw : P.tagCodec.FixedWidth w)
    (masterKey : P.SymmetricKey) (nForward nBackward : ℕ) (ex : P.Tag) (payload : Bytes)
    (b : Backward P) : genuineReply P masterKey nForward nBackward ex payload = .ok b ↔
      aeDec P (P.deriveKey (.forward (UInt32.ofNat (nForward - 1))) masterKey) ex
        (coverAll (coverBackward P) (layerKeys P masterKey (nBackward - 1)) b) =
          some payload := by
  rw [genuineReply, foldlM_aeUnwrap hw, aeDec_eq_some_iff hP, ← layerKeys, Except.ok.injEq]
  constructor
  · intro h
    rw [← h, coverAll_peelAll (coverBackward_peelBackward hP hw)]
  · intro h
    rw [h, peelAll_coverAll (peelBackward_coverBackward hP hw)]

/-- INTERNAL: the counters of a meta, when they are between one and the limit of the format,
go through the loop bound and the key index unchanged.  SRC: src/lib.rs:719-724 -/
theorem replyKey_of_pos (masterKey : P.SymmetricKey) {nForward : ℕ} (hpos : 1 ≤ nForward)
    (hlt : nForward < 2 ^ 32) : replyKey P masterKey nForward =
      P.deriveKey (.forward (UInt32.ofNat (nForward - 1))) masterKey := by
  have hcast : asU32 nForward = nForward := by
    unfold asU32
    exact Nat.mod_eq_of_lt hlt
  rw [replyKey, hcast, wrappingSub_of_le hpos hlt]

/-- The path lengths are the ones that are read. -/
theorem counters_of_deserialize {hopMeta : Meta} {p : ℕ × ℕ}
    (h : countersCodec.deserialize (hopMeta.next.toList.take 16) = some p) :
    counters hopMeta = p := by
  rw [deserialize_counters] at h
  exact Option.some.inj h

/-- The sender opens the reply under the layers of the backward hops.  SRC: src/lib.rs:714-734 -/
theorem procOnion_of_sender (hw : P.tagCodec.FixedWidth w) {F : OnionFormat P}
    {sk : P.PrivateKey} {o o' : Onion P} {masterKey : P.SymmetricKey} {hopMeta : Meta}
    (hunwrap : F.unwrap sk o = .ok (masterKey, hopMeta, o')) (hrole : hopMeta.role = .sender)
    {nForward nBackward : ℕ} (hcounters : counters hopMeta = (nForward, nBackward))
    (hf : 1 ≤ nForward) (hf' : nForward ≤ F.pathLimit)
    (hb : 1 ≤ nBackward) (hb' : nBackward ≤ F.pathLimit)
    {lookup : Bytes → Option P.Tag} {ex : P.Tag} (hlookup : lookup o.packedHeader = some ex) :
    F.procOnion sk lookup o =
      (orErr (aeDec P (P.deriveKey (.forward (UInt32.ofNat (nForward - 1))) masterKey) ex
        (coverAll (coverBackward P) (layerKeys P masterKey (nBackward - 1)) o.backward))
          .aeError).map .sender := by
  have hlimit : F.pathLimit < 2 ^ 32 := F.maxPathLength.toNat_lt
  have hloop : wrappingSub 64 nBackward 1 = nBackward - 1 := wrappingSub_of_le hb (by omega)
  rw [OnionFormat.procOnion_eq, procOnionMetered_of_sender hw hunwrap hrole, hcounters]
  dsimp only
  rw [hloop, replyKey_of_pos masterKey hf (by omega), hlookup, openReply, orErr_some, ok_bind]

/-- **The sender accepts exactly the genuine replies**, answers every other backward section
with `AeError`, and no backward section is a genuine reply for two payloads.
SRC: src/lib.rs:714-734 -/
theorem procOnion_sender_iff (hP : P.Lawful) (hw : P.tagCodec.FixedWidth w) (F : OnionFormat P)
    (sk : P.PrivateKey) (o o' : Onion P) (masterKey : P.SymmetricKey) (hopMeta : Meta)
    (hunwrap : F.unwrap sk o = .ok (masterKey, hopMeta, o')) (hrole : hopMeta.role = .sender)
    (nForward nBackward : ℕ)
    (hcounters : countersCodec.deserialize (hopMeta.next.toList.take 16) =
      some (nForward, nBackward))
    (hf : 1 ≤ nForward) (hf' : nForward ≤ F.pathLimit)
    (hb : 1 ≤ nBackward) (hb' : nBackward ≤ F.pathLimit)
    (lookup : Bytes → Option P.Tag) (ex : P.Tag) (hlookup : lookup o.packedHeader = some ex) :
    (∀ payload, F.procOnion sk lookup o = .ok (.sender payload) ↔
        genuineReply P masterKey nForward nBackward ex payload = .ok o.backward) ∧
      ((∀ payload, genuineReply P masterKey nForward nBackward ex payload ≠ .ok o.backward) →
        F.procOnion sk lookup o = .error (.err .aeError)) ∧
      ∀ payload payload', genuineReply P masterKey nForward nBackward ex payload =
          .ok o.backward →
        genuineReply P masterKey nForward nBackward ex payload' = .ok o.backward →
        payload = payload' := by
  have hproc := procOnion_of_sender hw hunwrap hrole (counters_of_deserialize hcounters) hf hf' hb
    hb' hlookup
  simp only [ne_eq, genuineReply_eq_ok_iff hP hw]
  rw [hproc]
  refine ⟨?_, ?_, ?_⟩
  · intro payload
    rw [map_eq_ok]
    constructor
    · rintro ⟨p, hp, heq⟩
      cases heq
      exact orErr_eq_ok.mp hp
    · intro h
      exact ⟨payload, orErr_eq_ok.mpr h, rfl⟩
  · intro hnone
    rw [Option.eq_none_iff_forall_ne_some.mpr hnone, orErr_none]
    rfl
  · intro payload payload' h h'
    rw [h] at h'
    exact Option.some.inj h'

/-- An onion that the node at `sampleAddress 7` unwraps in the role of the sender, with the
given counters.  SRC: src/lib.rs:650-654 -/
def sampleSenderOnion (nForward nBackward : ℕ) (backward : Backward samplePrimitives) :
    Onion samplePrimitives :=
  forge samplePrimitives 0 (samplePrivateKey (sampleAddress 7)) (List.Vector.replicate 16 9)
    (OnionFormat.metaBackward nForward nBackward) [.raw []] [] backward

/-- The node opens the sample in the role of the sender. -/
theorem unwrap_sampleSenderOnion (nForward nBackward : ℕ) (backward : Backward samplePrimitives) :
    ∃ o', (sampleFormat 2).unwrap (samplePrivateKey (sampleAddress 7))
      (sampleSenderOnion nForward nBackward backward) =
        .ok (List.Vector.replicate 16 9, OnionFormat.metaBackward nForward nBackward, o') :=
  ⟨_, unwrap_forge samplePrimitives_widths (samplePrimitives_isKeyPair _) 0 _ _ rfl _ _⟩

/-- The path lengths that the sender wrote are read.  SRC: src/lib.rs:650-654, 715 -/
theorem deserialize_metaBackward {n m : ℕ} (hn : n < 2 ^ 64) (hm : m < 2 ^ 64) :
    countersCodec.deserialize ((OnionFormat.metaBackward n m).next.toList.take 16) =
      some (n, m) := by
  rw [deserialize_counters, counters_metaBackward hn hm]

/-- A reply of three bytes over two backward hops is accepted. -/
theorem procOnion_sender_iff_sample : ∃ backward lookup,
    (sampleFormat 2).procOnion (samplePrivateKey (sampleAddress 7)) lookup
      (sampleSenderOnion 1 2 backward) = .ok (.sender [1, 2, 3]) := by
  let key : samplePrimitives.SymmetricKey := List.Vector.replicate 16 9
  let sealed := aeEnc samplePrimitives (samplePrimitives.deriveKey (.forward 0) key)
    samplePrimitives.defaultTag [1, 2, 3]
  let reply := peelAll (peelBackward samplePrimitives) (layerKeys samplePrimitives key 1) sealed
  obtain ⟨o', ho'⟩ := unwrap_sampleSenderOnion 1 2 reply
  refine ⟨reply, fun _ => some samplePrimitives.defaultTag, ?_⟩
  exact ((procOnion_sender_iff samplePrimitives_lawful (Codec.array_fixedWidth 16)
    (sampleFormat 2) _ _ o' key _ ho' rfl 1 2 (deserialize_metaBackward (by decide) (by decide))
    le_rfl (by decide) (by decide) le_rfl (fun _ => some samplePrimitives.defaultTag)
    samplePrimitives.defaultTag rfl).1 _).mpr (foldlM_aeUnwrap (Codec.array_fixedWidth 16) _ _)

/-! ## The counters -/

/-- One below zero is the largest number of 64 bits. -/
theorem wrappingSub_zero_one : wrappingSub 64 0 1 = 2 ^ 64 - 1 := by
  unfold wrappingSub
  decide

/-- A difference that is not below zero does not underflow. -/
theorem underflow_eq_zero_iff (a b : ℕ) : underflow a b = 0 ↔ b ≤ a := by
  unfold underflow
  split <;> omega

/-- INTERNAL: the length of the loop is within the limit exactly for the counters that an
honest path, or one longer by a hop, has.  SRC: src/lib.rs:720 -/
theorem wrappingSub_le_iff {n limit : ℕ} (hn : n < 2 ^ 64) (hlimit : limit < 2 ^ 32) :
    wrappingSub 64 n 1 ≤ limit ↔ 1 ≤ n ∧ n ≤ limit + 1 := by
  rcases Nat.eq_zero_or_pos n with rfl | hpos
  · rw [wrappingSub_zero_one]
    omega
  · rw [wrappingSub_of_le hpos hn]
    omega

/-- `proc_onion` at the sender returns `Ok` or `Err` after at most `max_path_length` calls of
`ae_wrap` and without an underflow, and answers `UnexpectedReply` when no reply is expected, if
and only if `n_backward` is between one and `max_path_length + 1` and `n_forward` is not a
multiple of `2 ^ 32`.  SRC: src/lib.rs:714-734 -/
theorem procOnionMetered_bounded_iff (hw : P.tagCodec.FixedWidth w) (F : OnionFormat P)
    (sk : P.PrivateKey) (o o' : Onion P) (masterKey : P.SymmetricKey) (hopMeta : Meta)
    (hunwrap : F.unwrap sk o = .ok (masterKey, hopMeta, o')) (hrole : hopMeta.role = .sender)
    (nForward nBackward : ℕ)
    (hcounters : countersCodec.deserialize (hopMeta.next.toList.take 16) =
      some (nForward, nBackward))
    (lookup : Bytes → Option P.Tag) :
    ((F.procOnionMetered sk lookup o ⟨0, 0⟩).1 ≠ .error .panic ∧
        (F.procOnionMetered sk lookup o ⟨0, 0⟩).2.aeWraps ≤ F.pathLimit ∧
        (F.procOnionMetered sk lookup o ⟨0, 0⟩).2.underflows = 0 ∧
        (lookup o.packedHeader = none →
          (F.procOnionMetered sk lookup o ⟨0, 0⟩).1 = .error (.err .unexpectedReply))) ↔
      (1 ≤ nBackward ∧ nBackward ≤ F.pathLimit + 1 ∧ nForward % 2 ^ 32 ≠ 0) := by
  have hlimit : F.pathLimit < 2 ^ 32 := F.maxPathLength.toNat_lt
  have hcount := counters_of_deserialize hcounters
  have hlt : nBackward < 2 ^ 64 := by
    have := (counters_lt hopMeta).2
    rwa [hcount] at this
  have hcast : asU32 nForward = nForward % 2 ^ 32 := by
    unfold asU32
    rfl
  have hresult : ∀ b key, (openReply P key (lookup o.packedHeader) b).map
        (ProcessedOnion.sender (P := P)) ≠ .error .panic ∧
      (lookup o.packedHeader = none → (openReply P key (lookup o.packedHeader) b).map
        (ProcessedOnion.sender (P := P)) = .error (.err .unexpectedReply)) := by
    intro b key
    refine ⟨?_, fun hnone => by rw [hnone]; rfl⟩
    cases lookup o.packedHeader with
    | none => exact nofun
    | some ex =>
        rw [openReply, orErr_some, ok_bind]
        cases aeDec P key ex b <;> exact nofun
  rw [procOnionMetered_of_sender hw hunwrap hrole, hcount]
  simp only [Nat.zero_add, wrappingSub_le_iff hlt hlimit, Nat.add_eq_zero_iff,
    underflow_eq_zero_iff, hcast]
  constructor
  · rintro ⟨-, ⟨hpos, hle⟩, ⟨-, hf⟩, -⟩
    exact ⟨hpos, hle, by omega⟩
  · rintro ⟨hpos, hle, hf⟩
    exact ⟨(hresult _ _).1, ⟨hpos, hle⟩, ⟨hpos, by omega⟩, (hresult _ _).2⟩

/-- The largest counters in range are processed within the limit. -/
theorem procOnionMetered_bounded_iff_sample :
    ((sampleFormat 2).procOnionMetered (samplePrivateKey (sampleAddress 7)) (fun _ => none)
      (sampleSenderOnion 1 3 ([], samplePrimitives.defaultTag)) ⟨0, 0⟩).2.aeWraps ≤ 2 := by
  obtain ⟨o', ho'⟩ := unwrap_sampleSenderOnion 1 3 ([], samplePrimitives.defaultTag)
  exact ((procOnionMetered_bounded_iff (Codec.array_fixedWidth 16) (sampleFormat 2) _ _ o' _ _ ho'
    rfl 1 3 (deserialize_metaBackward (by decide) (by decide)) (fun _ => none)).mpr
      ⟨by decide, le_rfl, by decide⟩).2.1

/-- With `n_backward = 0` the subtraction underflows and the loop calls `ae_wrap` `2 ^ 64 - 1`
times, before the reply is found to be unexpected.  SRC: src/lib.rs:720-727 -/
theorem procOnionMetered_bounded_fails : ∃ (o o' : Onion samplePrimitives)
    (masterKey : samplePrimitives.SymmetricKey) (hopMeta : Meta),
    (sampleFormat 2).unwrap (samplePrivateKey (sampleAddress 7)) o =
        .ok (masterKey, hopMeta, o') ∧
      hopMeta.role = .sender ∧
      countersCodec.deserialize (hopMeta.next.toList.take 16) = some (1, 0) ∧
      ((sampleFormat 2).procOnionMetered (samplePrivateKey (sampleAddress 7)) (fun _ => none)
        o ⟨0, 0⟩).2 = ⟨2 ^ 64 - 1, 1⟩ := by
  obtain ⟨o', ho'⟩ := unwrap_sampleSenderOnion 1 0 ([], samplePrimitives.defaultTag)
  have hcounters := deserialize_metaBackward (n := 1) (m := 0) (by decide) (by decide)
  refine ⟨_, o', _, _, ho', rfl, hcounters, ?_⟩
  rw [procOnionMetered_of_sender (Codec.array_fixedWidth 16) ho' rfl,
    counters_of_deserialize hcounters, wrappingSub_zero_one]
  unfold underflow asU32
  rfl

end Eror.Analysis
