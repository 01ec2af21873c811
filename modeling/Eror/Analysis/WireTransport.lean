import Eror.Analysis.ProcessRoles
import Eror.Interface.SamplePrimitives

/-!
# Sending an onion over a wire

Serializing an onion and reading it back forgets which blocks were parsed, and nothing else.
Every operation on onions commutes with that (`unwrap_asRaw`, `procOnion_asRaw`,
`replyOnion_asRaw`): parsing, the MAC input, the shift and the identifier all go through the
byte form of a block.
-/

set_option autoImplicit false

namespace Eror.Analysis

open Library Model

variable {R : Type} {P : Primitives R}

/-! ## The formats -/

/-- What is written is read back, with raw blocks.  SRC: src/lib.rs:189-218 -/
theorem deserialize_serialize (hfits : ∀ t, P.tagCodec.Fits t) {o : Onion P}
    (ho : o.Addressable) : Onion.deserialize o.serialize = .ok o.asRaw := by
  have hfit : (Onion.codec P).Fits (headerBytes o.header, o.forward, o.backward) :=
    ⟨ho.header.fits, (Codec.bytes_fits _).mpr ho.forward, (Codec.bytes_fits _).mpr ho.backward,
      hfits _⟩
  rw [Onion.deserialize, Onion.serialize, Codec.deserialize_encode _ _ hfit, orErr_some, ok_bind]
  exact congrArg (fun header => Except.ok (Onion.mk header o.forward o.backward))
    o.asRaw_header_eq.symm

/-- What is read was written at the front.  SRC: src/lib.rs:189-218 -/
theorem serialize_prefix_of_deserialize {bs : Bytes} {o : Onion P}
    (h : Onion.deserialize bs = .ok o) : o.serialize <+: bs := by
  rw [Onion.deserialize, bind_eq_ok] at h
  obtain ⟨⟨blocks, fwd, bwd⟩, hread, hmk⟩ := h
  cases hmk
  obtain ⟨-, rest, hrest⟩ := (Onion.codec P).deserialize_eq_some (orErr_eq_ok.mp hread)
  refine ⟨rest, ?_⟩
  rw [Onion.serialize, headerBytes_map_raw]
  exact hrest

/-- The reply header and the payload are split where they were joined.
SRC: src/lib.rs:676, 687-692 -/
theorem splitReplyHeader_encode (F : OnionFormat P) {header : List (Header P)}
    (hheader : AddressableHeader header) {payload : Bytes} (hpayload : payload.length < 2 ^ 64) :
    F.splitReplyHeader (replyCodec.encode (headerBytes header, payload)) =
      .ok ((headerBytes header).map .raw, payload) := by
  have hfit : replyCodec.Fits (headerBytes header, payload) :=
    ⟨hheader.fits, (Codec.bytes_fits _).mpr hpayload⟩
  rw [OnionFormat.splitReplyHeader, Codec.deserialize_encode _ _ hfit, orErr_some, ok_bind]
  rfl

/-! ## The operations on raw forms -/

/-- What is idempotent on values is idempotent on calls. -/
theorem map_map_of_idem {α : Type} (r : α → α) (h : ∀ a, r (r a) = r a) (x : Exec α) :
    (x.map r).map r = x.map r := by
  cases x with
  | error e => rfl
  | ok a => exact congrArg Except.ok (h a)

/-- What commutes with each round commutes with the loop. -/
theorem foldlM_map_comm {α γ : Type} {f : α → γ → Exec α} {r : α → α}
    (h : ∀ a c, f (r a) c = (f a c).map r) (l : List γ) (a : α) :
    l.foldlM f (r a) = (l.foldlM f a).map r := by
  induction l generalizing a with
  | nil => rfl
  | cons c l ih =>
      rw [List.foldlM_cons, List.foldlM_cons]
      exact map_bind_eq_map_bind (h a c) ih

/-- A raw block is put into a raw header. -/
theorem set_asRaw (header : List (Header P)) (i : ℕ) (v : Bytes) :
    (header.map Header.asRaw).set i (.raw v) = (header.set i (.raw v)).map Header.asRaw := by
  rw [List.map_set]
  rfl

/-- A round of the loop of `unwrap` does the same with raw blocks.  SRC: src/lib.rs:561-563 -/
theorem shiftBlock_asRaw (ks : P.SymmetricKey) (header : List (Header P)) (i : ℕ) :
    shiftBlock P ks (header.map Header.asRaw) i =
      (shiftBlock P ks header i).map (List.map Header.asRaw) := by
  unfold shiftBlock
  apply map_bind_eq_map_bind (r := Header.asRaw)
  · rw [List.getElem?_map, orPanic_map]
  intro block
  exact congrArg Except.ok (set_asRaw header i _)

/-- What `unwrap` returns, with raw blocks. -/
def rawResult (r : P.SymmetricKey × Meta × Onion P) : P.SymmetricKey × Meta × Onion P :=
  (r.1, r.2.1, r.2.2.asRaw)

/-- `unwrap` does not see which blocks are parsed.  SRC: src/lib.rs:545-575 -/
theorem unwrap_asRaw (F : OnionFormat P) (sk : P.PrivateKey) (o : Onion P) :
    F.unwrap sk o.asRaw = (F.unwrap sk o).map rawResult := by
  have hmac : ∀ data, macInput data o.asRaw.header.tail o.forward =
      macInput data o.header.tail o.forward := by
    intro data
    rw [macInput, macInput, Onion.asRaw_header, ← List.map_tail, headerBytes_asRaw]
  unfold OnionFormat.unwrap OnionFormat.unwrapIn
  simp only [check_release_bind, Onion.asRaw_forward, Onion.asRaw_backward, hmac]
  refine map_bind_eq_map_bind (r := Header.asRaw)
    (by rw [Onion.asRaw_header, List.getElem?_map, orPanic_map]) fun first => ?_
  rw [Header.intoParsed_eq, Header.intoParsed_eq, Header.intoBytes_asRaw]
  refine bind_eq_map_bind fun header => bind_eq_map_bind fun plain => bind_eq_map_bind fun km => ?_
  split
  · rfl
  · refine map_bind_eq_map_bind (foldlM_map_comm (shiftBlock_asRaw _) _ _) fun shifted => ?_
    refine map_bind_eq_map_bind (r := Header.asRaw) (by rw [List.getLast?_map, orPanic_map])
      fun _ => bind_eq_map_bind fun backward => ?_
    rw [List.length_map, set_asRaw]
    rfl

/-- INTERNAL: the sender looks at the onion through its identifier and its backward section.
SRC: src/lib.rs:716-717 -/
theorem procSender_asRaw (key : P.SymmetricKey) (next : Address) (lookup : Bytes → Option P.Tag)
    (o : Onion P) : OnionFormat.procSender P key next lookup o.asRaw =
      OnionFormat.procSender P key next lookup o := by
  unfold OnionFormat.procSender
  simp only [Onion.packedHeader_asRaw, Onion.asRaw_backward]

/-- `proc_onion` does not see which blocks are parsed.  SRC: src/lib.rs:697-736 -/
theorem procOnion_asRaw (F : OnionFormat P) (sk : P.PrivateKey) (lookup : Bytes → Option P.Tag)
    (o : Onion P) : F.procOnion sk lookup o.asRaw =
      (F.procOnion sk lookup o).map ProcessedOnion.asRaw := by
  have hraw := unwrap_asRaw F sk o
  cases h : F.unwrap sk o with
  | error e =>
      rw [h] at hraw
      rw [procOnion_of_error h, procOnion_of_error hraw]
      rfl
  | ok r =>
      obtain ⟨key, hopMeta, o'⟩ := r
      rw [h] at hraw
      cases hrole : hopMeta.role with
      | hop =>
          rw [procOnion_of_hop h hrole, procOnion_of_hop hraw hrole]
          rfl
      | receiver =>
          rw [procOnion_of_receiver h hrole, procOnion_of_receiver hraw hrole]
          exact bind_eq_map_bind fun _ => rfl
      | sender =>
          rw [OnionFormat.procOnion_eq, OnionFormat.procOnion_eq,
            procOnionMetered_eq_procSender h hrole, procOnionMetered_eq_procSender hraw hrole,
            procSender_asRaw]
          cases hr : (OnionFormat.procSender P key hopMeta.next lookup o ⟨0, 0⟩).1 with
          | error e => rfl
          | ok r =>
              obtain ⟨payload, rfl⟩ := procSender_returns key hopMeta.next lookup o _ _ hr
              rfl

/-- The header of the reply is raw.  SRC: src/lib.rs:687-692 -/
theorem splitReplyHeader_asRaw (F : OnionFormat P) (data : Bytes) :
    F.splitReplyHeader data =
      (F.splitReplyHeader data).map (Prod.map (List.map Header.asRaw) id) := by
  apply bind_eq_map_bind
  intro r
  simp [Except.map, Header.asRaw, Function.comp_def, pure, Except.pure]

/-- `reply_onion` does not see which blocks are parsed.  SRC: src/lib.rs:582-611 -/
theorem replyOnion_asRaw (F : OnionFormat P) (sk : P.PrivateKey) (o : Onion P) (payload : Bytes) :
    F.replyOnion sk o.asRaw payload =
      (F.replyOnion sk o payload).map (Prod.map Onion.asRaw id) := by
  unfold OnionFormat.replyOnion OnionFormat.replyOnionIn
  refine map_bind_eq_map_bind (unwrap_asRaw F sk o) fun ⟨key, hopMeta, o'⟩ => ?_
  by_cases hrole : hopMeta.role = .receiver
  · refine (if_neg (not_not.mpr hrole)).trans (Eq.trans ?_
      (congrArg (Except.map _) (if_neg (not_not.mpr hrole)).symm))
    exact map_bind_eq_map_bind (splitReplyHeader_asRaw F _) fun _ => rfl
  · refine (if_pos hrole).trans (Eq.trans ?_ (congrArg (Except.map _) (if_pos hrole).symm))
    rfl

/-! ## Transport -/

/-- **Transport is transparent.**  An onion that is serialized and read back has raw blocks
only, equals the original, and is treated as the original by every operation up to the form of
the blocks; a header list survives the reply header likewise; and what is read from a byte
string was written at its front.  SRC: src/lib.rs:102-226, 687-692 -/
theorem onion_transport (hfits : ∀ t, P.tagCodec.Fits t) (F : OnionFormat P) :
    (∀ o : Onion P, o.Addressable → ∃ o', Onion.deserialize o.serialize = .ok o' ∧
        (∀ h ∈ o'.header, ∃ v, h = .raw v) ∧ (o' == o) = true ∧
        (∀ sk, (F.unwrap sk o').map rawResult = (F.unwrap sk o).map rawResult) ∧
        (∀ sk lookup, (F.procOnion sk lookup o').map ProcessedOnion.asRaw =
          (F.procOnion sk lookup o).map ProcessedOnion.asRaw) ∧
        ∀ sk payload, (F.replyOnion sk o' payload).map (Prod.map Onion.asRaw id) =
          (F.replyOnion sk o payload).map (Prod.map Onion.asRaw id)) ∧
      (∀ (header : List (Header P)) (payload : Bytes), AddressableHeader header →
        payload.length < 2 ^ 64 → ∃ header',
          F.splitReplyHeader (replyCodec.encode (headerBytes header, payload)) =
            .ok (header', payload) ∧ (header' == header) = true) ∧
      ∀ (bs : Bytes) (o : Onion P), Onion.deserialize bs = .ok o → o.serialize <+: bs := by
  refine ⟨fun o ho => ⟨o.asRaw, deserialize_serialize hfits ho, ?_, ?_, ?_, ?_, ?_⟩, ?_, ?_⟩
  · intro h hh
    obtain ⟨block, -, rfl⟩ := List.mem_map.mp hh
    exact ⟨_, rfl⟩
  · rw [Onion.beq_iff_asRaw_eq, Onion.asRaw_asRaw]
  · intro sk
    rw [unwrap_asRaw]
    exact map_map_of_idem rawResult (fun r => by rw [rawResult, rawResult, Onion.asRaw_asRaw]) _
  · intro sk lookup
    rw [procOnion_asRaw]
    exact map_map_of_idem _ ProcessedOnion.asRaw_asRaw _
  · intro sk payload
    rw [replyOnion_asRaw]
    exact map_map_of_idem _ (fun r => congrArg (Prod.mk · r.2) r.1.asRaw_asRaw) _
  · intro header payload hheader hpayload
    refine ⟨_, splitReplyHeader_encode F hheader hpayload, ?_⟩
    rw [header_beq_iff, headerBytes_map_raw]
  · exact fun bs o h => serialize_prefix_of_deserialize h

/-- An onion with a parsed block. -/
def sampleParsedOnion : Onion samplePrimitives :=
  ⟨[.parsed ⟨samplePrimitives.defaultTag, [1, 2]⟩], [3], ([4], samplePrimitives.defaultTag)⟩

/-- The onion with a parsed block arrives. -/
theorem onion_transport_sample : ∃ o', Onion.deserialize sampleParsedOnion.serialize = .ok o' ∧
    (o' == sampleParsedOnion) = true := by
  obtain ⟨o', ho', -, hbeq, -⟩ := (onion_transport (P := samplePrimitives) (fun _ => trivial)
    (sampleFormat 1)).1 sampleParsedOnion ⟨⟨by decide, by decide⟩, by decide, by decide⟩
  exact ⟨o', ho', hbeq⟩

end Eror.Analysis
