import Eror.Analysis.FormedCircuit

/-!
# Header-length accounting, for any primitives

`single_header_length` adds `SYMMETRIC_KEY_LENGTH` to literal sizes, among them 16 bytes for the
tag and 40 for the overhead of the public-key encryption.  It is used for the blocks that are
filled in, for the length of the packed header and through it for the forward section that
`form_onion` commits to, while the blocks that are built have the length the primitives give
them.  `headerAccounting_iff` says for which primitives the two agree, and
`FormedBy.reply_forward` what the receiver generates in any case.
-/

set_option autoImplicit false

namespace Eror.Analysis

open Library Model

variable {R : Type} {P : Primitives R} {w c : ℕ} {F : OnionFormat P}

/-- What header-length accounting is for: the blocks that are built have the length of a single
header, the packed header of an onion has the total length, and for the given paths the forward
section that the receiver generates has the length that was committed to, so that the first
backward hop accepts the reply.  SRC: src/lib.rs:304-324, 589-608, 645-648 -/
structure HeaderAccounting [Rng R] (F : OnionFormat P) (sk : Address → P.PrivateKey)
    (fwd bwd : List Address) (payload : Bytes) (rng : R) : Prop where
  wrapped : ∀ (rng : R) (pk : P.PublicKey) (key : P.SymmetricKey) (hopMeta : Meta)
    (headers : List (Header P)) (data : Bytes) (block : Header P),
    (wrap P key (P.asymmetricEncrypt rng pk ((keyMetaCodec P).encode (key, hopMeta))).1 headers
      data).1.head? = some block → block.intoBytes.length = F.singleHeaderLength
  onionized : ∀ keys hops hopMeta data len (rng rng' : R) (o₁ oₙ : Onion P) tag,
    F.onionize keys hops hopMeta data len rng = .ok ((o₁, oₙ, tag), rng') →
    ∀ o, o = o₁ ∨ o = oₙ → (∀ bs ∈ headerBytes o.header, bs.length = F.singleHeaderLength) ∧
      (Codec.bytes.list.encode (headerBytes o.header)).length = F.totalHeaderLength
  reply : ∀ o expected rng', F.formOnion fwd bwd payload rng = .ok ((o, expected), rng') →
    ∃ opened received receiver first, unwrapPath F (fwd.dropLast.map sk) o =
        .ok (opened, received) ∧
      fwd.getLast? = some receiver ∧ bwd.head? = some first ∧
      ∀ response, ∃ reply, F.replyOnion (sk receiver) received response = .ok (reply, first) ∧
        reply.forward.length = F.totalHeaderLength + 8 + payload.length ∧
        ∃ r, F.unwrap (sk first) reply = .ok r

/-- The length of a forward section that holds a packed header with `m` sealed blocks and a packed
payload of `len` bytes. -/
def replyLength (F : OnionFormat P) (tagWidth overhead m len : ℕ) : ℕ :=
  8 + (m * (8 + sealedLength P tagWidth overhead) +
    (F.pathLimit - m) * (8 + F.singleHeaderLength)) + (8 + len)

/-- It is the length that `form_onion` commits to for just one sum of tag and overhead.
SRC: src/lib.rs:304-316, 647 -/
theorem replyLength_eq_iff {m : ℕ} (hpos : 1 ≤ m) (hle : m ≤ F.pathLimit) (len : ℕ) :
    replyLength F w c m len = F.totalHeaderLength + 8 + len ↔ w + c = 56 := by
  rw [← sealedLength_eq_iff (P := P) F, replyLength, OnionFormat.totalHeaderLength]
  obtain ⟨d, hd⟩ := Nat.exists_eq_add_of_le hle
  rw [hd, Nat.add_sub_cancel_left, Nat.add_mul]
  constructor
  · intro h
    have hmul : m * (8 + sealedLength P w c) = m * (8 + F.singleHeaderLength) := by omega
    have := Nat.eq_of_mul_eq_mul_left hpos hmul
    omega
  · intro h
    rw [h]
    omega

/-- **The forward section that the receiver generates**, for any primitives, has the length of a
packed header with a sealed block for each backward hop, and of the payload.
SRC: src/lib.rs:589-600, 672-673 -/
theorem FormedBy.reply_forward (hP : P.Lawful) (hW : P.Widths w c)
    (hsealed : sealedLength P w c < 2 ^ 64) {sk : Address → P.PrivateKey} {fwd bwd : List Address}
    {payload : Bytes} {o : Onion P} {expected : ExpectedResponse P}
    {masterKey key : P.SymmetricKey} {replyTo : Address} {back₁ backₙ : Onion P}
    {plans : List (HopPlan P)}
    (h : FormedBy F fwd bwd payload o expected masterKey key replyTo back₁ backₙ plans)
    (hreg : ∀ a ∈ fwd, Primitives.Registered F sk a) (hpayload : payload.length < 2 ^ 64) :
    ∃ opened received receiver, fwd.getLast? = some receiver ∧
      unwrapPath F (fwd.dropLast.map sk) o = .ok (opened, received) ∧
      ∀ response, ∃ reply, F.replyOnion (sk receiver) received response = .ok (reply, replyTo) ∧
        headerBytes reply.header = headerBytes back₁.header ∧
        reply.forward = P.prng (P.deriveKey .prng key)
          (List.replicate (replyLength F w c bwd.length payload.length) 0) := by
  obtain ⟨tag, init, last, garbage, hB, -⟩ := h.backward
  have hlengths := hB.block_lengths hW
  have hback := hB.addressable hW hsealed
  obtain ⟨opened, received, receiver, hreceiver, hrun, hreply⟩ :=
    h.reply hP hW hreg hback hpayload
  refine ⟨opened, received, receiver, hreceiver, hrun, ?_⟩
  intro response
  obtain ⟨reply, hok, hheader, hforward⟩ := hreply response
  refine ⟨reply, hok, hheader, ?_⟩
  have hinner : (innerPayload back₁ payload).length =
      replyLength F w c bwd.length payload.length := by
    change (_ ++ Codec.bytes.encode payload).length = _
    rw [List.length_append, Codec.bytes_encode, List.length_append, toLE_length,
      packed_length_of_blockLengths hlengths, replyLength]
  rw [hforward, hinner]

/-- INTERNAL: a reply with the committed forward section shows the front of the backward onion,
and its first hop accepts it.  SRC: src/lib.rs:582-611, 645-648 -/
theorem FormedBy.reply_accepted (hP : P.Lawful) (hW : P.Widths w c)
    {sk : Address → P.PrivateKey} {fwd bwd : List Address} {payload : Bytes} {o : Onion P}
    {expected : ExpectedResponse P} {masterKey key : P.SymmetricKey} {replyTo : Address}
    {back₁ backₙ reply : Onion P} {plans : List (HopPlan P)}
    (h : FormedBy F fwd bwd payload o expected masterKey key replyTo back₁ backₙ plans)
    (hreg : ∀ a ∈ bwd, Primitives.Registered F sk a)
    (hheader : headerBytes reply.header = headerBytes back₁.header)
    (hforward : reply.forward = randomPayload F key payload.length) :
    ∃ r, F.unwrap (sk replyTo) reply = .ok r := by
  obtain ⟨tag, init, last, garbage, hB, -⟩ := h.backward
  obtain ⟨pre, lastLeg, hpath⟩ := path_of_assembled hP hW hreg hB
  obtain ⟨first, k, m, f', hfirst, hstep⟩ := hpath.first_step
  rw [h.firstHop] at hfirst
  obtain rfl := Option.some.inj hfirst
  have hsection : back₁.forward = randomPayload F key payload.length := hB.forward_eq hP
  have hfront : front reply = front back₁ := by
    rw [front, front, hheader, hforward, hsection]
  exact ⟨_, hstep reply hfront⟩

/-- **The accounting holds if and only if tag and public-key overhead take 56 bytes together**, as
they do in `EcPrimitives`.  SRC: src/lib.rs:304-324, 589-608, 645-648; src/primitives.rs:77-162 -/
theorem headerAccounting_iff [Rng R] (hP : P.Lawful) (hW : P.Widths w c) (F : OnionFormat P)
    (sk : Address → P.PrivateKey) (fwd bwd : List Address) (hfwd : Primitives.Routable F sk fwd)
    (hbwd : Primitives.Routable F sk bwd) (payload : Bytes) (hpayload : payload.length < 2 ^ 64)
    (rng : R) : HeaderAccounting F sk fwd bwd payload rng ↔ w + c = 56 := by
  constructor
  · intro h
    obtain ⟨pk, -, -⟩ := hfwd.registered _ (List.head_mem hfwd.ne_nil)
    have hlen := h.wrapped rng pk (P.randomKey rng).1 ⟨.hop, fwd.head hfwd.ne_nil⟩ [] [] _ rfl
    exact (sealedLength_eq_iff F).mp ((pack_cipher_length hW _ rng pk _).symm.trans hlen)
  · intro hsum
    refine ⟨?_, ?_, ?_⟩
    · intro rng pk key hopMeta headers data block hblock
      cases hblock
      exact (pack_cipher_length hW _ rng pk _).trans ((sealedLength_eq_iff F).mpr hsum)
    · intro keys hops hopMeta data len rng rng' o₁ oₙ tag h o ho
      obtain ⟨init, last, garbage, hassembled⟩ := assembled_of_onionize hP hW.tag h
      have hshape : o.WellFormed F := by
        rcases ho with rfl | rfl
        · exact hassembled.wellFormed hW hsum
        · exact hassembled.wellFormed_last hW hsum
      exact ⟨hshape.block, packedHeaders_length hshape⟩
    · intro o expected rng' h
      obtain ⟨o', expected', rng'', masterKey, key, replyTo, back₁, backₙ, plans, h', hformed⟩ :=
        formOnion_spec hP hW.tag hfwd hbwd payload rng
      rw [h] at h'
      cases h'
      have hsealed : sealedLength P w c < 2 ^ 64 := sealedLength_lt hW hsum
      obtain ⟨opened, received, receiver, hreceiver, hrun, hreply⟩ :=
        hformed.reply_forward hP hW hsealed hfwd.registered hpayload
      refine ⟨opened, received, receiver, replyTo, hrun, hreceiver, hformed.firstHop, ?_⟩
      intro response
      obtain ⟨reply, hok, hheader, hforward⟩ := hreply response
      rw [(replyLength_eq_iff hbwd.pos hbwd.le _).mpr hsum, ← randomPayload] at hforward
      refine ⟨reply, hok, ?_, hformed.reply_accepted hP hW hbwd.registered hheader hforward⟩
      rw [hforward, randomPayload, P.prng_length, List.length_replicate]

/-- The sizes of `EcPrimitives` satisfy the condition. -/
theorem headerAccounting_iff_sample :
    HeaderAccounting (sampleFormat 3) samplePrivateKey [sampleAddress 7, sampleAddress 8]
      [sampleAddress 9] [1, 2] 0 :=
  (headerAccounting_iff samplePrimitives_lawful samplePrimitives_widths (sampleFormat 3)
    samplePrivateKey _ _ (sampleFormat_routable 3 (by decide) (by decide))
    (sampleFormat_routable 3 (by decide) (by decide)) [1, 2] (by decide) (0 : ℕ)).mpr rfl

/-! ## Tags of 32 bytes -/

/-- What is tagged grows by what the forward section grows by. -/
theorem macInput_length_add {data p p' : Bytes} {headers headers' : List (Header P)} {d : ℕ}
    (hheaders : headerBytes headers' = headerBytes headers) (hlen : p'.length = p.length + d) :
    (macInput data headers' p').length = (macInput data headers p).length + d := by
  simp only [macInput, hheaders, Codec.pair_encode, Codec.bytes_encode, List.length_append,
    toLE_length, hlen]
  omega

/-- The wide MAC notices a forward section that is sixteen bytes longer.
SRC: src/lib.rs:551-559 -/
theorem unwrap_longer_forward {F : OnionFormat widePrimitives} {sk : widePrimitives.PrivateKey}
    {o o' : Onion widePrimitives} {key : widePrimitives.SymmetricKey} {hopMeta : Meta}
    (h : Authentic widePrimitives sk o key hopMeta)
    (hheader : headerBytes o'.header = headerBytes o.header)
    (hlen : o'.forward.length = o.forward.length + 16) :
    F.unwrap sk o' = .error (.err .macMismatch) := by
  obtain ⟨block, hopen, htag⟩ := h
  obtain ⟨first, rest, -, hh, -⟩ := id hopen
  obtain ⟨first', rest', hh'⟩ : ∃ first' rest', o'.header = first' :: rest' := by
    apply List.exists_cons_of_ne_nil
    intro hnil
    rw [hh, hnil] at hheader
    cases hheader
  rw [hh, hh', headerBytes_cons, headerBytes_cons] at hheader
  obtain ⟨hfirst, hrest⟩ := List.cons.inj hheader
  rw [unwrap_of_opens (hopen.of_first hh hh' hfirst), if_pos]
  rw [← htag, layerTag, layerTag, hh, hh', List.tail_cons, List.tail_cons]
  intro heq
  have hbyte : UInt8.ofNat (macInput block.data rest' o'.forward).length =
      UInt8.ofNat (macInput block.data rest o.forward).length :=
    congrArg (fun t : List.Vector UInt8 32 => t.head) heq
  rw [macInput_length_add hrest hlen] at hbyte
  have hmod := congrArg UInt8.toNat hbyte
  simp only [UInt8.toNat_ofNat'] at hmod
  omega

/-- With tags of 32 bytes the reply over one hop each way is 16 bytes longer than the forward
section that was committed to, and the first backward hop answers `MacMismatch`.
SRC: src/lib.rs:304-316, 589-600, 645-648 -/
theorem headerAccounting_fails : ∃ o expected rng' reply,
    (wideFormat 1).formOnion [sampleAddress 7] [sampleAddress 9] [1] 0 =
        .ok ((o, expected), rng') ∧
      (wideFormat 1).replyOnion (samplePrivateKey (sampleAddress 7)) o [2] =
        .ok (reply, sampleAddress 9) ∧
      reply.forward.length = (wideFormat 1).totalHeaderLength + 8 + 1 + 16 ∧
      (wideFormat 1).unwrap (samplePrivateKey (sampleAddress 9)) reply =
        .error (.err .macMismatch) ∧
      ¬ HeaderAccounting (wideFormat 1) samplePrivateKey [sampleAddress 7] [sampleAddress 9] [1]
        0 := by
  have hfwd : Primitives.Routable (wideFormat 1) samplePrivateKey [sampleAddress 7] :=
    wideFormat_routable 1 (by decide) (by decide)
  have hbwd : Primitives.Routable (wideFormat 1) samplePrivateKey [sampleAddress 9] :=
    wideFormat_routable 1 (by decide) (by decide)
  obtain ⟨o, expected, rng', masterKey, key, replyTo, back₁, backₙ, plans, hform, hformed⟩ :=
    formOnion_spec widePrimitives_lawful widePrimitives_widths.tag hfwd hbwd [1] (0 : ℕ)
  obtain ⟨opened, received, receiver, hreceiver, hrun, hreply⟩ := hformed.reply_forward
    widePrimitives_lawful widePrimitives_widths (by decide) hfwd.registered (by decide)
  cases hreceiver
  cases hrun
  have hfirst := hformed.firstHop
  cases hfirst
  obtain ⟨reply, hok, hheader, hforward⟩ := hreply [2]
  have hlen : reply.forward.length = (wideFormat 1).totalHeaderLength + 8 + 1 + 16 := by
    rw [hforward, Primitives.prng_length, List.length_replicate]
    rfl
  refine ⟨o, expected, rng', reply, hform, hok, hlen, ?_, ?_⟩
  · obtain ⟨tag, init, last, garbage, hB, -⟩ := hformed.backward
    obtain ⟨pre, lastLeg, hpath⟩ :=
      path_of_assembled widePrimitives_lawful widePrimitives_widths hbwd.registered hB
    obtain ⟨first, k, m, f', hhead, hstep⟩ := hpath.first_step
    cases hhead
    obtain ⟨hauth, -, -⟩ := authentic_of_unwrap widePrimitives_widths.tag (hstep back₁ rfl)
    have hback : back₁.forward = randomPayload (wideFormat 1) key 1 :=
      hB.forward_eq widePrimitives_lawful
    apply unwrap_longer_forward hauth hheader
    rw [hlen, hback, randomPayload, Primitives.prng_length, List.length_replicate]
  · intro haccounting
    obtain ⟨opened', received', receiver', first', hrun', hreceiver', hfirst', hreply'⟩ :=
      haccounting.reply o expected rng' hform
    cases hreceiver'
    cases hrun'
    obtain ⟨reply', hok', hlen', -⟩ := hreply' [2]
    rw [hok] at hok'
    cases hok'
    rw [hlen'] at hlen
    have hone : ([1] : Bytes).length = 1 := rfl
    omega

end Eror.Analysis
