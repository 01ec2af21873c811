import Eror.Interface.SphinxNetwork

/-!
# The payload of a Sphinx packet

A message stands between sixteen zeros and a one, and zeros fill the rest; the layers of the hops
are put on from the inside out, so that each hop takes off its own (`addLayers_cons`,
`unwrap_addEncryptionLayer`).

`recover_plaintext` reads more than the sender writes: behind the last one it takes any bytes for
padding (`recoverPlaintext_eq_ok`).  It reads payloads of sixteen zeros and a one as well, but a
debug assertion wants more than that, so in the `dev` profile they are a panic (`payload_reads`).
-/

set_option autoImplicit false

namespace Eror.Analysis.Sphinx

open Library Model.Sphinx
open Model (Profile)

variable {C : Crates}

/-! ## The last one -/

section Rposition

variable {α : Type} {p : α → Bool} {l : List α}

/-- There is no last place when there is none at all. -/
theorem rposition_eq_none : Payload.rposition p l = none ↔ ∀ x ∈ l, p x = false := by
  induction l with
  | nil => simp [Payload.rposition]
  | cons a l ih =>
      rw [Payload.rposition, List.forall_mem_cons, ← ih]
      cases Payload.rposition p l with
      | some i => simp
      | none => cases p a <;> simp

/-- The place found is the last one. -/
theorem rposition_eq_some {i : ℕ} : Payload.rposition p l = some i ↔
    ∃ front x back, l = front ++ x :: back ∧ p x = true ∧ (∀ y ∈ back, p y = false) ∧
      front.length = i := by
  induction l generalizing i with
  | nil => simp [Payload.rposition]
  | cons a l ih =>
      rw [Payload.rposition]
      cases h : Payload.rposition p l with
      | some j =>
          obtain ⟨front, x, back, rfl, hx, hback, rfl⟩ := ih.mp h
          constructor
          · intro hi
            cases hi
            exact ⟨a :: front, x, back, rfl, hx, hback, rfl⟩
          · rintro ⟨front', x', back', hl, hx', hback', rfl⟩
            cases front' with
            | nil =>
                cases hl
                rw [hback' x (List.mem_append_right _ List.mem_cons_self)] at hx
                cases hx
            | cons b front' =>
                rw [List.cons_append, List.cons.injEq] at hl
                have hj := ih.mpr ⟨front', x', back', hl.2, hx', hback', rfl⟩
                rw [h, Option.some.injEq] at hj
                rw [List.length_cons, hj]
      | none =>
          have hnone := rposition_eq_none.mp h
          constructor
          · intro hi
            by_cases ha : p a = true
            · cases (if_pos ha).symm.trans hi
              exact ⟨[], a, l, rfl, ha, hnone, rfl⟩
            · cases (if_neg ha).symm.trans hi
          · rintro ⟨front, x, back, hl, hx, -, rfl⟩
            cases front with
            | nil =>
                cases hl
                exact if_pos hx
            | cons b front =>
                rw [List.cons_append, List.cons.injEq] at hl
                rw [hnone x (hl.2 ▸ List.mem_append_right _ List.mem_cons_self)] at hx
                cases hx

/-- Bytes without a one have no last one. -/
theorem lastOne_eq_none {bytes : Bytes} :
    Payload.rposition (· == 1) bytes = none ↔ 1 ∉ bytes := by
  rw [rposition_eq_none]
  constructor
  · intro h hmem
    have hne := h 1 hmem
    cases hne
  · intro h x hx
    apply beq_eq_false_iff_ne.mpr
    rintro rfl
    exact h hx

/-- The last one, and the bytes without a one behind it. -/
theorem lastOne_eq_some {bytes : Bytes} {i : ℕ} : Payload.rposition (· == 1) bytes = some i ↔
    ∃ front tail, bytes = front ++ 1 :: tail ∧ 1 ∉ tail ∧ front.length = i := by
  rw [rposition_eq_some]
  constructor
  · rintro ⟨front, x, tail, rfl, hx, htail, hi⟩
    rw [beq_iff_eq.mp hx]
    exact ⟨front, tail, rfl, lastOne_eq_none.mp (rposition_eq_none.mpr htail), hi⟩
  · rintro ⟨front, tail, rfl, htail, hi⟩
    exact ⟨front, 1, tail, rfl, rfl, rposition_eq_none.mp (lastOne_eq_none.mpr htail), hi⟩

end Rposition

/-! ## Padding -/

section Recover

variable {p : Profile} {payload : Payload}

variable (p payload) in
/-- The assertion holds, or is not compiled in.  SRC: sphinx/src/payload/mod.rs:139 -/
def LengthAsserted : Prop := p = .dev → payloadOverheadSize < payload.bytes.length

/-- In the `dev` profile a payload that is not longer than the overhead is a panic. -/
theorem recoverPlaintext_of_short (h : ¬ LengthAsserted p payload) :
    payload.recoverPlaintext p = .error .panic := by
  obtain ⟨rfl, hshort⟩ := Classical.not_imp.mp h
  rw [Payload.recoverPlaintext, debugAssert_dev_of_not hshort]
  rfl

/-- The check of the leading zeros, as it is written. -/
theorem zeros_iff {bytes : Bytes} :
    (bytes.take securityParameter).all (· == 0) = true ↔
      ∀ b ∈ bytes.take securityParameter, b = 0 := by
  simp only [List.all_eq_true, beq_iff_eq]

/-- Zeros in front of something are sixteen. -/
theorem take_eq_zeros {bytes : Bytes} (hzeros : ∀ b ∈ bytes.take securityParameter, b = 0)
    (hlong : securityParameter ≤ bytes.length) :
    bytes.take securityParameter = List.replicate securityParameter 0 := by
  rw [List.eq_replicate_iff, List.length_take, Nat.min_eq_left hlong]
  exact ⟨rfl, hzeros⟩

/-- A payload that does not begin with zeros is refused.
SRC: sphinx/src/payload/mod.rs:151-156 -/
theorem recoverPlaintext_of_nonzero (hasserted : LengthAsserted p payload)
    (h : ¬ ∀ b ∈ payload.bytes.take securityParameter, b = 0) :
    payload.recoverPlaintext p =
      fail .invalidPayload "malformed payload - no leading zero padding present" := by
  rw [Payload.recoverPlaintext, debugAssert_of hasserted, ok_bind,
    Bool.eq_false_iff.mpr (mt zeros_iff.mp h)]
  rfl

/-- Behind zeros the message ends before the last one, and a payload without a one is refused.
SRC: sphinx/src/payload/mod.rs:158-176 -/
theorem recoverPlaintext_of_zeros (hasserted : LengthAsserted p payload)
    (h : ∀ b ∈ payload.bytes.take securityParameter, b = 0) :
    payload.recoverPlaintext p =
      match Payload.rposition (· == 1) (payload.bytes.drop securityParameter) with
      | some i => .ok ((payload.bytes.drop securityParameter).take i)
      | none => fail .invalidPayload "malformed payload - invalid trailing padding" := by
  rw [Payload.recoverPlaintext, debugAssert_of hasserted, ok_bind, zeros_iff.mpr h]
  rfl

/-- INTERNAL: **what is recovered**: the bytes between sixteen zeros and the last one.
SRC: sphinx/src/payload/mod.rs:138-177 -/
theorem recoverPlaintext_eq_ok {message : Bytes} :
    payload.recoverPlaintext p = .ok message ↔ LengthAsserted p payload ∧ ∃ tail,
      payload.bytes = List.replicate securityParameter 0 ++ (message ++ 1 :: tail) ∧
        1 ∉ tail := by
  constructor
  · intro h
    have hasserted : LengthAsserted p payload := by
      by_contra hshort
      rw [recoverPlaintext_of_short hshort] at h
      cases h
    have hzeros : ∀ b ∈ payload.bytes.take securityParameter, b = 0 := by
      by_contra hnonzero
      rw [recoverPlaintext_of_nonzero hasserted hnonzero] at h
      cases h
    rw [recoverPlaintext_of_zeros hasserted hzeros] at h
    cases hlast : Payload.rposition (· == 1) (payload.bytes.drop securityParameter) with
    | none =>
        rw [hlast] at h
        cases h
    | some i =>
        obtain ⟨front, tail, hdrop, htail, rfl⟩ := lastOne_eq_some.mp hlast
        rw [hlast] at h
        dsimp only at h
        rw [hdrop, List.take_left' rfl] at h
        cases h
        have hlong : securityParameter ≤ payload.bytes.length := by
          have hlen := congrArg List.length hdrop
          simp only [List.length_drop, List.length_append, List.length_cons] at hlen
          omega
        refine ⟨hasserted, tail, ?_, htail⟩
        rw [← hdrop, ← take_eq_zeros hzeros hlong, List.take_append_drop]
  · rintro ⟨hasserted, tail, hbytes, htail⟩
    have hdrop : payload.bytes.drop securityParameter = message ++ 1 :: tail := by
      rw [hbytes, List.drop_left' List.length_replicate]
    have hzeros : ∀ b ∈ payload.bytes.take securityParameter, b = 0 := by
      rw [hbytes, List.take_left' List.length_replicate]
      intro b hb
      exact List.eq_of_mem_replicate hb
    rw [recoverPlaintext_of_zeros hasserted hzeros, hdrop,
      lastOne_eq_some.mpr ⟨message, tail, rfl, htail, rfl⟩]
    dsimp only
    rw [List.take_left' rfl]

/-- INTERNAL: **what is not recovered**, and why. -/
theorem recoverPlaintext_eq_error (hasserted : LengthAsserted p payload) (f : Fault) :
    payload.recoverPlaintext p = .error f ↔
      (∃ b ∈ payload.bytes.take securityParameter, b ≠ 0) ∧ f = .err ⟨.invalidPayload,
        "malformed payload - no leading zero padding present"⟩ ∨
      (∀ b ∈ payload.bytes.take securityParameter, b = 0) ∧
        1 ∉ payload.bytes.drop securityParameter ∧ f = .err ⟨.invalidPayload,
        "malformed payload - invalid trailing padding"⟩ := by
  by_cases hzeros : ∀ b ∈ payload.bytes.take securityParameter, b = 0
  · have hnonzero : ¬ ∃ b ∈ payload.bytes.take securityParameter, b ≠ 0 := by
      rintro ⟨b, hb, hne⟩
      exact hne (hzeros b hb)
    rw [recoverPlaintext_of_zeros hasserted hzeros, ← lastOne_eq_none]
    cases Payload.rposition (· == 1) (payload.bytes.drop securityParameter) with
    | some i => simp [hnonzero]
    | none =>
      constructor
      · intro h
        cases h
        exact .inr ⟨hzeros, rfl, rfl⟩
      · rintro (⟨hex, -⟩ | ⟨-, -, rfl⟩)
        · exact absurd hex hnonzero
        · rfl
  · rw [recoverPlaintext_of_nonzero hasserted hzeros]
    have hnonzero : ∃ b ∈ payload.bytes.take securityParameter, b ≠ 0 := by
      push Not at hzeros
      exact hzeros
    simp [hnonzero, hzeros, fail, eq_comm]

end Recover

/-- **What payloads are read as.**  The message of a payload is what stands between sixteen zeros
and the last one, whatever follows it; without the zeros or without a one there is none, and the
error says which of them is missing.  In the `dev` profile a payload that is not longer than the
overhead is a panic before any of this.  SRC: sphinx/src/payload/mod.rs:138-177 -/
theorem payload_reads (p : Profile) (payload : Payload) :
    (∀ message, payload.recoverPlaintext p = .ok message ↔ LengthAsserted p payload ∧ ∃ tail,
      payload.bytes = List.replicate securityParameter 0 ++ (message ++ 1 :: tail) ∧ 1 ∉ tail) ∧
    (∀ f, payload.recoverPlaintext p = .error f ↔
      ¬ LengthAsserted p payload ∧ f = .panic ∨
      LengthAsserted p payload ∧
        ((∃ b ∈ payload.bytes.take securityParameter, b ≠ 0) ∧ f = .err ⟨.invalidPayload,
          "malformed payload - no leading zero padding present"⟩ ∨
        (∀ b ∈ payload.bytes.take securityParameter, b = 0) ∧
          1 ∉ payload.bytes.drop securityParameter ∧ f = .err ⟨.invalidPayload,
          "malformed payload - invalid trailing padding"⟩)) := by
  refine ⟨fun message => recoverPlaintext_eq_ok, ?_⟩
  intro f
  by_cases hasserted : LengthAsserted p payload
  · rw [recoverPlaintext_eq_error hasserted]
    constructor
    · exact fun h => .inr ⟨hasserted, h⟩
    · rintro (⟨h, -⟩ | ⟨-, h⟩)
      · exact absurd hasserted h
      · exact h
  · rw [recoverPlaintext_of_short hasserted]
    constructor
    · intro h
      cases h
      exact .inl ⟨hasserted, rfl⟩
    · rintro (⟨-, rfl⟩ | ⟨h, -⟩)
      · rfl
      · exact absurd h hasserted

/-- A size with room for a block and for the message passes.  SRC: sphinx/src/payload/mod.rs:58-86
-/
theorem validateParameters_ok {payloadSize length : ℕ}
    (hsize : lionessDigestResultSize ≤ payloadSize)
    (hlen : length + payloadOverheadSize ≤ payloadSize) :
    Payload.validateParameters payloadSize length = .ok () := by
  have hoverhead : payloadOverheadSize ≤ payloadSize := by omega
  rw [Payload.validateParameters, if_neg (Nat.not_lt.mpr hoverhead), if_neg (Nat.not_lt.mpr hsize),
    sub_of_le hoverhead, ok_bind, if_neg (by omega)]
  rfl

/-- The payload before any layer is put on. -/
def finalPayload (message : Bytes) (payloadSize : ℕ) : Payload :=
  ⟨List.replicate securityParameter 0 ++ (message ++ 1 ::
    List.replicate (payloadSize - (message.length + payloadOverheadSize)) 0)⟩

/-- A message that fits is padded, in a vector that is not too long.
SRC: sphinx/src/payload/mod.rs:91-101 -/
theorem setFinalPayload_eq {message : Bytes} {payloadSize : ℕ} (hmax : payloadSize ≤ isizeMax)
    (hlen : message.length + payloadOverheadSize ≤ payloadSize) :
    Payload.setFinalPayload message payloadSize = .ok (finalPayload message payloadSize) := by
  have hfront : (List.replicate securityParameter (0 : UInt8) ++ message ++ [1]).length =
      message.length + payloadOverheadSize := by
    simp only [List.length_append, List.length_replicate, List.length_singleton, sizes]
    omega
  rw [Payload.setFinalPayload, withCapacity_of_le hmax, ok_bind, List.take_append, hfront,
    List.take_of_length_le (by omega), List.take_replicate, Nat.min_eq_left (by omega),
    finalPayload]
  simp only [List.append_assoc, List.singleton_append]
  rfl

/-- The padding fills up the payload. -/
theorem finalPayload_length {message : Bytes} {payloadSize : ℕ}
    (hlen : message.length + payloadOverheadSize ≤ payloadSize) :
    (finalPayload message payloadSize).bytes.length = payloadSize := by
  simp only [finalPayload, List.length_append, List.length_replicate, List.length_cons, sizes]
    at hlen ⊢
  omega

/-- The message comes back out of its padding, in either profile. -/
theorem recoverPlaintext_finalPayload {message : Bytes} {payloadSize : ℕ}
    (hsize : payloadOverheadSize < payloadSize)
    (hlen : message.length + payloadOverheadSize ≤ payloadSize) (p : Profile) :
    (finalPayload message payloadSize).recoverPlaintext p = .ok message := by
  refine recoverPlaintext_eq_ok.mpr ⟨fun _ => ?_, _, rfl, ?_⟩
  · rwa [finalPayload_length hlen]
  · intro hone
    have hzero := List.eq_of_mem_replicate hone
    cases hzero

/-! ## Layers -/

/-- A layer comes off as it went on.  SRC: sphinx/src/payload/mod.rs:104-134 -/
theorem unwrap_addEncryptionLayer (hC : C.Lawful) {payload sealed : Payload}
    {key : Arr payloadKeySize} (h : payload.addEncryptionLayer C key = .ok sealed) :
    sealed.unwrap C key = .ok payload ∧ sealed.bytes.length = payload.bytes.length := by
  rw [Payload.addEncryptionLayer] at h
  cases hcipher : C.lionessEncrypt key payload.bytes with
  | error err =>
      rw [hcipher] at h
      cases h
  | ok bytes =>
      rw [hcipher] at h
      cases h
      refine ⟨?_, hC.lionessEncrypt_length _ _ _ hcipher⟩
      rw [Payload.unwrap, hC.lionessDecrypt_lionessEncrypt _ _ _ hcipher]

/-- Lioness puts a layer on a payload that is longer than a digest.
SRC: sphinx/src/payload/mod.rs:104-118 -/
theorem addEncryptionLayer_ok (hC : C.Lawful) {payload : Payload} (key : Arr payloadKeySize)
    (h : lionessDigestResultSize < payload.bytes.length) :
    ∃ sealed, payload.addEncryptionLayer C key = .ok sealed := by
  obtain ⟨bytes, hbytes⟩ := hC.lionessEncrypt_ok key payload.bytes h
  exact ⟨⟨bytes⟩, by rw [Payload.addEncryptionLayer, hbytes]⟩

variable (C) in
/-- Put on the layers of some keys, the first one outermost.
SRC: sphinx/src/payload/mod.rs:47-50 -/
def addLayers (keys : List (Arr payloadKeySize)) (payload : Payload) : Exec Payload :=
  keys.reverse.foldlM (Payload.addEncryptionLayer C) payload

/-- The layer of the first key is put on last. -/
theorem addLayers_cons (key : Arr payloadKeySize) (keys : List (Arr payloadKeySize))
    (payload : Payload) :
    addLayers C (key :: keys) payload =
      (addLayers C keys payload >>= fun inner => inner.addEncryptionLayer C key) := by
  rw [addLayers, List.reverse_cons, List.foldlM_append]
  congr 1
  funext inner
  rw [List.foldlM_cons]
  cases inner.addEncryptionLayer C key <;> rfl

/-- INTERNAL: **layers go on** any payload longer than a digest, and keep its length. -/
theorem addLayers_ok (hC : C.Lawful) (keys : List (Arr payloadKeySize)) {payload : Payload}
    (h : lionessDigestResultSize < payload.bytes.length) :
    ∃ sealed, addLayers C keys payload = .ok sealed ∧
      sealed.bytes.length = payload.bytes.length := by
  induction keys with
  | nil => exact ⟨payload, rfl, rfl⟩
  | cons key keys ih =>
      obtain ⟨inner, hinner, hlen⟩ := ih
      obtain ⟨sealed, hsealed⟩ := addEncryptionLayer_ok hC key (hlen ▸ h)
      refine ⟨sealed, ?_, (unwrap_addEncryptionLayer hC hsealed).2.trans hlen⟩
      rw [addLayers_cons, hinner, ok_bind, hsealed]

variable (C) in
/-- Take off the layers of some keys, the first one first. -/
def removeLayers (keys : List (Arr payloadKeySize)) (payload : Payload) : Exec Payload :=
  keys.foldlM (Payload.unwrap C) payload

/-- **The layers come off in the order of the hops.** -/
theorem removeLayers_addLayers (hC : C.Lawful) {keys : List (Arr payloadKeySize)}
    {payload sealed : Payload} (h : addLayers C keys payload = .ok sealed) :
    removeLayers C keys sealed = .ok payload := by
  induction keys generalizing sealed with
  | nil =>
      cases h
      rfl
  | cons key keys ih =>
      rw [addLayers_cons] at h
      obtain ⟨inner, hinner, hlayer⟩ := bind_eq_ok.mp h
      rw [removeLayers, List.foldlM_cons, (unwrap_addEncryptionLayer hC hlayer).1, ok_bind]
      exact ih hinner

/-- INTERNAL: **a message that fits** is padded and sealed, in as many bytes as were asked for.
SRC: sphinx/src/payload/mod.rs:39-53 -/
theorem encapsulateMessage_spec (hC : C.Lawful) {message : Bytes}
    (keys : List (Arr payloadKeySize)) {payloadSize : ℕ}
    (hsize : lionessDigestResultSize < payloadSize) (hmax : payloadSize ≤ isizeMax)
    (hlen : message.length + payloadOverheadSize ≤ payloadSize) :
    ∃ payload, Payload.encapsulateMessage C message keys payloadSize = .ok payload ∧
      payload.bytes.length = payloadSize ∧
      removeLayers C keys payload = .ok (finalPayload message payloadSize) := by
  have hlong : lionessDigestResultSize < (finalPayload message payloadSize).bytes.length := by
    rwa [finalPayload_length hlen]
  obtain ⟨payload, hpayload, hkept⟩ := addLayers_ok hC keys hlong
  refine ⟨payload, ?_, ?_, removeLayers_addLayers hC hpayload⟩
  · rw [Payload.encapsulateMessage, validateParameters_ok hsize.le hlen, ok_bind,
      setFinalPayload_eq hmax hlen, ok_bind]
    exact hpayload
  · rw [hkept, finalPayload_length hlen]

end Eror.Analysis.Sphinx
