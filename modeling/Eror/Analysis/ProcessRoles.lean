import Eror.Analysis.UnwrapLayer

/-!
# `proc_onion`, role by role

What `proc_onion` returns once `unwrap` has, for each of the three roles.  A hop and a
receiver touch neither the meter nor the expected tags.  At the sender, the loop of
`ae_wrap`s has one round for each backward hop but the sender itself, so its result is a
stack of layers (`procOnionMetered_of_sender`).
-/

set_option autoImplicit false

namespace Eror.Analysis

open Library Model

variable {R : Type} {P : Primitives R} {w : ℕ}

/-! ## The counters of a meta -/

/-- A number is read from the front of bytes that are long enough. -/
theorem nat_decode {w : ℕ} {bs : Bytes} (h : w ≤ bs.length) :
    (Codec.nat w).decode bs = some (ofLE (bs.take w), bs.drop w) :=
  if_pos h

/-- The two path lengths in `meta.next`.  SRC: src/lib.rs:715 -/
def counters (m : Meta) : ℕ × ℕ :=
  (ofLE (m.next.toList.take 8), ofLE ((m.next.toList.drop 8).take 8))

/-- The path lengths can be read whatever the address is.  SRC: src/lib.rs:715 -/
theorem deserialize_counters (m : Meta) :
    countersCodec.deserialize (m.next.toList.take 16) = some (counters m) := by
  have hlen : m.next.toList.length = 32 := m.next.toList_length
  have h₁ : 8 ≤ (m.next.toList.take 16).length := by simp [hlen]
  have h₂ : 8 ≤ ((m.next.toList.take 16).drop 8).length := by simp [hlen]
  have hfst := nat_decode h₁
  have hsnd := nat_decode h₂
  have htake : ((m.next.toList.take 16).drop 8).take 8 = (m.next.toList.drop 8).take 8 := by
    rw [List.drop_take, List.take_take]
    rfl
  rw [List.take_take, show min 8 16 = 8 from rfl] at hfst
  rw [htake] at hsnd
  simp only [countersCodec, Codec.deserialize, Codec.pair, Option.bind_eq_bind, hfst, hsnd,
    Option.bind_some]
  rfl

/-- They are numbers of 64 bits. -/
theorem counters_lt (m : Meta) : (counters m).1 < 2 ^ 64 ∧ (counters m).2 < 2 ^ 64 := by
  have hlen : m.next.toList.length = 32 := m.next.toList_length
  have hfst := ofLE_lt (m.next.toList.take 8)
  have hsnd := ofLE_lt ((m.next.toList.drop 8).take 8)
  rw [List.length_take_of_le (by omega)] at hfst
  rw [List.length_take_of_le (by simp [hlen])] at hsnd
  exact ⟨by simpa [counters] using hfst, by simpa [counters] using hsnd⟩

/-- The counters that `form_onion` writes are read back.  SRC: src/lib.rs:654 -/
theorem counters_metaBackward {n m : ℕ} (hn : n < 2 ^ 64) (hm : m < 2 ^ 64) :
    counters (OnionFormat.metaBackward n m) = (n, m) := by
  have hread : countersCodec.deserialize
      ((OnionFormat.metaBackward n m).next.toList.take 16) = some (n, m) := by
    have henc : (OnionFormat.metaBackward n m).next.toList =
      countersCodec.encode (n, m) ++ List.replicate 16 0 := rfl
    have hlen : (countersCodec.encode (n, m)).length = 16 := by simp [countersCodec]
    rw [henc, List.take_left' hlen]
    apply Codec.deserialize_encode
    exact ⟨by simpa [Codec.nat] using hn, by simpa [Codec.nat] using hm⟩
  rw [deserialize_counters] at hread
  exact Option.some.inj hread

/-! ## Metered sequences -/

/-- What has returned a value goes on with it, and with what was counted. -/
theorem metered_bind_ok {α β : Type} {x : Metered α} {f : α → Metered β} {m m' : Meter} {a : α}
    (h : x m = (.ok a, m')) : (x >>= f) m = f a m' := by
  change (StateT.bind x (ExceptT.bindCont f)) m = _
  rw [StateT.bind, h]
  rfl

/-- What has ended in a fault does not go on. -/
theorem metered_bind_error {α β : Type} {x : Metered α} {f : α → Metered β} {m m' : Meter}
    {e : Fault} (h : x m = (.error e, m')) : (x >>= f) m = (.error e, m') := by
  change (StateT.bind x (ExceptT.bindCont f)) m = _
  rw [StateT.bind, h]
  rfl

/-- Whenever the computation returns a value, the value satisfies `Q`. -/
def Returns {α : Type} (x : Metered α) (Q : α → Prop) : Prop :=
  ∀ m a, (x m).1 = .ok a → Q a

/-- A computation returns what its last part returns. -/
theorem Returns.bind {α β : Type} {x : Metered α} {f : α → Metered β} {Q : β → Prop}
    (h : ∀ a, Returns (f a) Q) : Returns (x >>= f) Q := by
  intro m b hb
  rcases hx : x m with ⟨_ | a, m'⟩
  · rw [metered_bind_error hx] at hb
    cases hb
  · rw [metered_bind_ok hx] at hb
    exact h a m' b hb

/-- A value is returned. -/
theorem Returns.pure {α : Type} {a : α} {Q : α → Prop} (h : Q a) :
    Returns (pure a : Metered α) Q := by
  intro m b hb
  cases hb
  exact h

/-- A difference wraps, and is counted when it does. -/
theorem metered_sub (w a b : ℕ) (m : Meter) : Metered.sub w a b m =
    (.ok (wrappingSub w a b), ⟨m.aeWraps, m.underflows + underflow a b⟩) := rfl

/-- A call that counts nothing. -/
@[simp] theorem metered_lift {α : Type} (x : Exec α) (m : Meter) : Metered.lift x m = (x, m) := rfl

/-- A value counts nothing. -/
@[simp] theorem metered_pure {α : Type} (a : α) (m : Meter) :
    (pure a : Metered α) m = (.ok a, m) := rfl

/-- INTERNAL: a loop of `ae_wrap`s puts one layer on in each round and counts it.
SRC: src/lib.rs:720-723 -/
theorem foldlM_aeWrap (hw : P.tagCodec.FixedWidth w) (key : ℕ → P.SymmetricKey) (l : List ℕ)
    (b : Backward P) (m : Meter) :
    l.foldlM (fun b i => Metered.aeWrap (key i) b) b m =
      (.ok (l.foldl (fun b i => coverBackward P (key i) b) b),
        { m with aeWraps := m.aeWraps + l.length }) := by
  induction l generalizing b m with
  | nil => rfl
  | cons i l ih =>
      have hround : Metered.aeWrap (key i) b m =
          (.ok (coverBackward P (key i) b), ⟨m.aeWraps + 1, m.underflows⟩) := by
        rw [Metered.aeWrap, aeWrap_eq hw]
      rw [List.foldlM_cons, metered_bind_ok hround, ih, List.foldl_cons, List.length_cons]
      exact congrArg (Prod.mk _) (congrArg (Meter.mk · _) (by ring))

/-- INTERNAL: the result of a computation that has not underflowed is the same in both
profiles. -/
theorem resultIn_eq {α : Type} {p : Profile} {x : Metered α} {r : Exec α} {m : Meter}
    (h : x ⟨0, 0⟩ = (r, m)) (hm : p = .dev → m.underflows = 0) : x.resultIn p = r := by
  rw [Metered.resultIn, h, check_of_holds hm, ok_bind]

/-- INTERNAL: in the `dev` profile a computation that underflows is a panic. -/
theorem resultIn_dev_of_underflow {α : Type} {x : Metered α} {r : Exec α} {m : Meter}
    (h : x ⟨0, 0⟩ = (r, m)) (hm : m.underflows ≠ 0) : x.resultIn .dev = .error .panic := by
  rw [Metered.resultIn, h, check_dev_of_not hm, error_bind]

/-! ## The roles -/

section Roles

variable {p : Profile} {F : OnionFormat P} {sk : P.PrivateKey} {o o' : Onion P}
  {key : P.SymmetricKey} {hopMeta : Meta}

/-- What `unwrap` answers is answered.  SRC: src/lib.rs:704 -/
theorem procOnionMeteredIn_of_error {fault : Fault} (h : F.unwrapIn p sk o = .error fault)
    (lookup : Bytes → Option P.Tag) (m : Meter) :
    F.procOnionMeteredIn p sk lookup o m = (.error fault, m) := by
  unfold OnionFormat.procOnionMeteredIn
  rw [metered_bind_error (metered_lift _ _ |>.trans (by rw [h]))]

/-- A hop passes on.  SRC: src/lib.rs:707-709 -/
theorem procOnionMeteredIn_of_hop (h : F.unwrapIn p sk o = .ok (key, hopMeta, o'))
    (hrole : hopMeta.role = .hop) (lookup : Bytes → Option P.Tag) (m : Meter) :
    F.procOnionMeteredIn p sk lookup o m = (.ok (.hop hopMeta.next o'), m) := by
  unfold OnionFormat.procOnionMeteredIn
  rw [metered_bind_ok (metered_lift _ _ |>.trans (by rw [h]))]
  simp only [hrole, metered_pure]

/-- A receiver reads what is behind the reply header.  SRC: src/lib.rs:710-713 -/
theorem procOnionMeteredIn_of_receiver (h : F.unwrapIn p sk o = .ok (key, hopMeta, o'))
    (hrole : hopMeta.role = .receiver) (lookup : Bytes → Option P.Tag) (m : Meter) :
    F.procOnionMeteredIn p sk lookup o m = ((do
      let (_, message) ← F.splitReplyHeader o'.forward
      return .receiver message), m) := by
  unfold OnionFormat.procOnionMeteredIn
  rw [metered_bind_ok (metered_lift _ _ |>.trans (by rw [h]))]
  simp only [hrole]
  cases F.splitReplyHeader o'.forward <;> rfl

/-- The sender has a branch of its own.  SRC: src/lib.rs:714-734 -/
theorem procOnionMeteredIn_eq_procSender (h : F.unwrapIn p sk o = .ok (key, hopMeta, o'))
    (hrole : hopMeta.role = .sender) (lookup : Bytes → Option P.Tag) (m : Meter) :
    F.procOnionMeteredIn p sk lookup o m =
      OnionFormat.procSender P key hopMeta.next lookup o m := by
  unfold OnionFormat.procOnionMeteredIn
  rw [metered_bind_ok (metered_lift _ _ |>.trans (by rw [h]))]
  simp only [hrole]

/-- An onion that is not unwrapped is not processed.  SRC: src/lib.rs:704 -/
theorem procOnionIn_of_error {fault : Fault} (h : F.unwrapIn p sk o = .error fault)
    (lookup : Bytes → Option P.Tag) : F.procOnionIn p sk lookup o = .error fault :=
  resultIn_eq (procOnionMeteredIn_of_error h lookup _) fun _ => rfl

/-- A hop obtains the next address and the onion for it.  SRC: src/lib.rs:707-709 -/
theorem procOnionIn_of_hop (h : F.unwrapIn p sk o = .ok (key, hopMeta, o'))
    (hrole : hopMeta.role = .hop) (lookup : Bytes → Option P.Tag) :
    F.procOnionIn p sk lookup o = .ok (.hop hopMeta.next o') :=
  resultIn_eq (procOnionMeteredIn_of_hop h hrole lookup _) fun _ => rfl

/-- The receiver obtains the message.  SRC: src/lib.rs:710-713 -/
theorem procOnionIn_of_receiver (h : F.unwrapIn p sk o = .ok (key, hopMeta, o'))
    (hrole : hopMeta.role = .receiver) (lookup : Bytes → Option P.Tag) :
    F.procOnionIn p sk lookup o = (do
      let (_, message) ← F.splitReplyHeader o'.forward
      return .receiver message) :=
  resultIn_eq (procOnionMeteredIn_of_receiver h hrole lookup _) fun _ => rfl

/-- The receiver's reply.  SRC: src/lib.rs:590-610 -/
theorem replyOnionIn_of_receiver (h : F.unwrapIn p sk o = .ok (key, hopMeta, o'))
    (hrole : hopMeta.role = .receiver) (payload : Bytes) :
    F.replyOnionIn p sk o payload = (do
      let (header, _) ← F.splitReplyHeader o'.forward
      return (⟨header, P.prng (P.deriveKey .prng key) (List.replicate o.forward.length 0),
        aeEnc P key o'.backward.2 payload⟩, hopMeta.next)) := by
  unfold OnionFormat.replyOnionIn
  rw [h, ok_bind]
  exact if_neg (not_not.mpr hrole)

end Roles

/-! ## The roles in the `release` profile -/

variable {F : OnionFormat P} {sk : P.PrivateKey} {o o' : Onion P} {key : P.SymmetricKey}
  {hopMeta : Meta}

/-- An onion that is not unwrapped is not processed.  SRC: src/lib.rs:704 -/
theorem procOnion_of_error {fault : Fault} (h : F.unwrap sk o = .error fault)
    (lookup : Bytes → Option P.Tag) : F.procOnion sk lookup o = .error fault :=
  procOnionIn_of_error h lookup

/-- A hop obtains the next address and the onion for it.  SRC: src/lib.rs:707-709 -/
theorem procOnion_of_hop (h : F.unwrap sk o = .ok (key, hopMeta, o'))
    (hrole : hopMeta.role = .hop) (lookup : Bytes → Option P.Tag) :
    F.procOnion sk lookup o = .ok (.hop hopMeta.next o') :=
  procOnionIn_of_hop h hrole lookup

/-- The receiver obtains the message.  SRC: src/lib.rs:710-713 -/
theorem procOnion_of_receiver (h : F.unwrap sk o = .ok (key, hopMeta, o'))
    (hrole : hopMeta.role = .receiver) (lookup : Bytes → Option P.Tag) :
    F.procOnion sk lookup o = (do
      let (_, message) ← F.splitReplyHeader o'.forward
      return .receiver message) :=
  procOnionIn_of_receiver h hrole lookup

/-- The sender has a branch of its own.  SRC: src/lib.rs:714-734 -/
theorem procOnionMetered_eq_procSender (h : F.unwrap sk o = .ok (key, hopMeta, o'))
    (hrole : hopMeta.role = .sender) (lookup : Bytes → Option P.Tag) (m : Meter) :
    F.procOnionMetered sk lookup o m =
      OnionFormat.procSender P key hopMeta.next lookup o m :=
  procOnionMeteredIn_eq_procSender h hrole lookup m

/-- Nothing but a reply comes of the sender's branch.  SRC: src/lib.rs:731-733 -/
theorem procSender_returns (key : P.SymmetricKey) (next : Address) (lookup : Bytes → Option P.Tag)
    (o : Onion P) : Returns (OnionFormat.procSender P key next lookup o)
      fun r => ∃ payload, r = .sender payload := by
  unfold OnionFormat.procSender
  exact Returns.bind fun _ => Returns.bind fun _ => Returns.bind fun _ => Returns.bind fun _ =>
    Returns.bind fun _ => Returns.bind fun payload => Returns.pure ⟨payload, rfl⟩

/-- What is relayed was opened in the role of a hop.  SRC: src/lib.rs:707-709 -/
theorem unwrap_of_procOnion_hop {lookup : Bytes → Option P.Tag} {next : Address} {n : Onion P}
    (h : F.procOnion sk lookup o = .ok (.hop next n)) :
    ∃ key, F.unwrap sk o = .ok (key, ⟨.hop, next⟩, n) := by
  cases hu : F.unwrap sk o with
  | error e =>
      rw [procOnion_of_error hu] at h
      cases h
  | ok r =>
      obtain ⟨key, ⟨role, a⟩, o'⟩ := r
      cases role with
      | hop =>
          rw [procOnion_of_hop hu rfl] at h
          cases h
          exact ⟨key, rfl⟩
      | receiver =>
          rw [procOnion_of_receiver hu rfl, bind_eq_ok] at h
          obtain ⟨_, -, hr⟩ := h
          cases hr
      | sender =>
          rw [OnionFormat.procOnion_eq, procOnionMetered_eq_procSender hu rfl] at h
          obtain ⟨_, hr⟩ := procSender_returns _ _ _ _ _ _ h
          cases hr

/-- The receiver's reply.  SRC: src/lib.rs:590-610 -/
theorem replyOnion_of_receiver (h : F.unwrap sk o = .ok (key, hopMeta, o'))
    (hrole : hopMeta.role = .receiver) (payload : Bytes) :
    F.replyOnion sk o payload = (do
      let (header, _) ← F.splitReplyHeader o'.forward
      return (⟨header, P.prng (P.deriveKey .prng key) (List.replicate o.forward.length 0),
        aeEnc P key o'.backward.2 payload⟩, hopMeta.next)) :=
  replyOnionIn_of_receiver h hrole payload

/-- What is answered was opened in the role of the receiver.  SRC: src/lib.rs:590-594 -/
theorem unwrap_of_replyOnion {payload : Bytes} {r : Onion P × Address}
    (h : F.replyOnion sk o payload = .ok r) :
    ∃ key hopMeta o', F.unwrap sk o = .ok (key, hopMeta, o') ∧ hopMeta.role = .receiver := by
  unfold OnionFormat.replyOnion OnionFormat.replyOnionIn at h
  obtain ⟨⟨key, hopMeta, o'⟩, hu, h⟩ := bind_eq_ok.mp h
  by_cases hrole : hopMeta.role = .receiver
  · exact ⟨key, hopMeta, o', hu, hrole⟩
  · cases (if_pos hrole).symm.trans h

/-- The keys of the backward hops but the sender itself. -/
def layerKeys (P : Primitives R) (masterKey : P.SymmetricKey) (n : ℕ) : List P.SymmetricKey :=
  (List.range n).map fun i => P.deriveKey (.backward (UInt32.ofNat i)) masterKey

/-- The key that the reply is encrypted with, for the counter of the forward hops. -/
def replyKey (P : Primitives R) (masterKey : P.SymmetricKey) (nForward : ℕ) : P.SymmetricKey :=
  P.deriveKey (.forward (UInt32.ofNat (wrappingSub 32 (asU32 nForward) 1))) masterKey

/-- What the sender opens once the layers of the backward hops are on again. -/
def openReply (P : Primitives R) (key : P.SymmetricKey) (exTag : Option P.Tag) (b : Backward P) :
    Exec Bytes := do
  let exTag ← orErr exTag .unexpectedReply
  orErr (aeDec P key exTag b) .aeError

/-- Opening the reply counts nothing.  SRC: src/lib.rs:725-733 -/
theorem metered_openReply (key : P.SymmetricKey) (exTag : Option P.Tag) (b : Backward P)
    (m : Meter) :
    (do
      let exTag ← Metered.lift (orErr exTag .unexpectedReply)
      let payload ← Metered.lift (orErr (aeDec P key exTag b) .aeError)
      return ProcessedOnion.sender payload : Metered (ProcessedOnion P)) m =
    ((openReply P key exTag b).map .sender, m) := by
  unfold openReply
  cases exTag with
  | none =>
      rw [orErr_none, metered_bind_error (metered_lift ..), error_bind]
      rfl
  | some ex =>
      rw [orErr_some, metered_bind_ok (metered_lift ..), ok_bind]
      cases aeDec P key ex b with
      | none =>
          rw [orErr_none, metered_bind_error (metered_lift ..)]
          rfl
      | some payload =>
          rw [orErr_some, metered_bind_ok (metered_lift ..), metered_pure]
          rfl

/-- **The sender's branch**: the layers of the backward hops are put on again, one call of
`ae_wrap` each, and the reply is opened with the key of the receiver.
SRC: src/lib.rs:714-734 -/
theorem procSender_eq (hw : P.tagCodec.FixedWidth w) (key : P.SymmetricKey) (hopMeta : Meta)
    (lookup : Bytes → Option P.Tag) (o : Onion P) (m : Meter) :
    OnionFormat.procSender P key hopMeta.next lookup o m =
      ((openReply P (replyKey P key (counters hopMeta).1) (lookup o.packedHeader)
        (coverAll (coverBackward P) (layerKeys P key (wrappingSub 64 (counters hopMeta).2 1))
          o.backward)).map .sender,
      ⟨m.aeWraps + wrappingSub 64 (counters hopMeta).2 1,
        m.underflows + underflow (counters hopMeta).2 1 +
          underflow (asU32 (counters hopMeta).1) 1⟩) := by
  have hcover : ∀ n, (List.range n).reverse.foldl
      (fun b i => coverBackward P (P.deriveKey (.backward (UInt32.ofNat i)) key) b) o.backward =
      coverAll (coverBackward P) (layerKeys P key n) o.backward := by
    intro n
    rw [List.foldl_reverse, coverAll, layerKeys, List.foldr_map]
  unfold OnionFormat.procSender
  rw [metered_bind_ok (metered_lift _ _ |>.trans (by rw [deserialize_counters, orErr_some]))]
  cases hc : counters hopMeta with
  | mk nForward nBackward =>
      simp only
      rw [metered_bind_ok (metered_sub ..), metered_bind_ok (foldlM_aeWrap hw ..),
        metered_bind_ok (metered_sub ..), hcover, List.length_reverse, List.length_range]
      exact metered_openReply ..

/-- An onion of the sender is processed by the sender's branch.  SRC: src/lib.rs:697-736 -/
theorem procOnionMetered_of_sender (hw : P.tagCodec.FixedWidth w)
    (h : F.unwrap sk o = .ok (key, hopMeta, o')) (hrole : hopMeta.role = .sender)
    (lookup : Bytes → Option P.Tag) (m : Meter) :
    F.procOnionMetered sk lookup o m =
      ((openReply P (replyKey P key (counters hopMeta).1) (lookup o.packedHeader)
        (coverAll (coverBackward P) (layerKeys P key (wrappingSub 64 (counters hopMeta).2 1))
          o.backward)).map .sender,
      ⟨m.aeWraps + wrappingSub 64 (counters hopMeta).2 1,
        m.underflows + underflow (counters hopMeta).2 1 +
          underflow (asU32 (counters hopMeta).1) 1⟩) := by
  rw [procOnionMetered_eq_procSender h hrole, procSender_eq hw]

end Eror.Analysis
