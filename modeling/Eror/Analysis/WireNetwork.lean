import Eror.Analysis.Interleaving
import Eror.Analysis.SenderRole
import Eror.Analysis.UniformSize
import Eror.Analysis.WireTransport
import Eror.Interface.Wire

/-!
# A network of bytes

All that is said of the network of onions holds of the bytes on its links.  The relation between
the two is that the bytes are read as the onion, up to which of its blocks are parsed (`ReadAs`),
and that the parts of the onion are vectors.  Every node keeps it, whoever built the onion
(`addressable_of_node`), so runs of any length report the same on both levels
(`wire_transparent`).
-/

set_option autoImplicit false

namespace Eror.Analysis

open Library Model

variable {R : Type} {P : Primitives R} {w c : ℕ} {F : OnionFormat P}

/-- The bytes are read as the onion, up to which of its blocks are parsed. -/
def ReadAs (bs : Bytes) (o : Onion P) : Prop :=
  ∃ o', Onion.deserialize bs = .ok o' ∧ (o' == o) = true

/-! ## Vectors -/

/-- `unwrap` keeps the number of blocks. -/
theorem peelHeader_length (ks : P.SymmetricKey) {header : List (Header P)}
    (hlen : rounds F < header.length) : (peelHeader F ks header).length = header.length := by
  simp only [peelHeader, List.length_set, List.length_append, List.length_mapIdx, List.length_take,
    List.length_tail, List.length_drop]
  omega

/-- INTERNAL: the blocks that `unwrap` returns are vectors when those it was given are.
SRC: src/lib.rs:560-569 -/
theorem addressable_peelHeader (hW : P.Widths w c) (ks : P.SymmetricKey)
    {header : List (Header P)} (h : AddressableHeader header) (hlen : rounds F < header.length) :
    AddressableHeader (peelHeader F ks header) := by
  refine ⟨(peelHeader_length ks hlen).trans_lt h.1, ?_⟩
  intro b hb
  rcases List.mem_or_eq_of_mem_set hb with hb | rfl
  · rcases List.mem_append.mp hb with hb | hb
    · obtain ⟨i, hi, rfl⟩ := List.mem_mapIdx.mp hb
      rw [Header.intoBytes_raw, decBlock, P.symmetricDecrypt_length]
      exact h.2 _ (List.mem_of_mem_tail (List.mem_of_mem_take (List.getElem_mem _)))
    · exact h.2 b (List.mem_of_mem_drop hb)
  · rw [Header.intoBytes_raw, fillBlock_length]
    exact singleHeaderLength_lt hW F

/-- So it is with the sections. -/
theorem addressable_peelOnion (hW : P.Widths w c) (key : P.SymmetricKey) {o : Onion P}
    (h : o.Addressable) (hlen : rounds F < o.header.length) :
    (peelOnion F key o).Addressable where
  header := addressable_peelHeader hW _ h.header hlen
  forward := (P.symmetricDecrypt_length ..).trans_lt h.forward
  backward := (peelBackward_length ..).trans_lt h.backward

/-- The header in front of the payload consists of vectors.  SRC: src/lib.rs:687-692 -/
theorem addressable_of_splitReplyHeader {data message : Bytes} {header : List (Header P)}
    (h : F.splitReplyHeader data = .ok (header, message)) : AddressableHeader header := by
  obtain ⟨⟨blocks, payload⟩, hread, hmk⟩ := bind_eq_ok.mp h
  cases hmk
  obtain ⟨⟨⟨hcount, hblocks⟩, -⟩, -⟩ := replyCodec.deserialize_eq_some (orErr_eq_ok.mp hread)
  refine ⟨(List.length_map _).trans_lt hcount, ?_⟩
  intro b hb
  obtain ⟨bs, hbs, rfl⟩ := List.mem_map.mp hb
  exact (Codec.bytes_fits bs).mp (hblocks bs hbs)

/-- INTERNAL: **what a node sends consists of vectors**, whoever built what it received.
SRC: src/lib.rs:582-611, 697-736 -/
theorem addressable_of_node (hW : P.Widths w c) {net : Network P}
    (hreply : net.reply.length < 2 ^ 64) {fl sent : Flight P} {e : Event P}
    (h : fl.onion.Addressable) (hnode : net.node fl = .ok e) (hsent : e.sent = some sent) :
    sent.onion.Addressable := by
  rw [Network.node_eq] at hnode
  obtain ⟨r, hproc, hnode⟩ := bind_eq_ok.mp hnode
  cases r with
  | sender payload =>
      cases hnode
      cases hsent
  | hop next onion =>
      cases hnode
      cases hsent
      obtain ⟨key, hunwrap⟩ := unwrap_of_procOnion_hop hproc
      obtain ⟨-, hlen, rfl⟩ := authentic_of_unwrap hW.tag hunwrap
      exact addressable_peelOnion hW key h hlen
  | receiver payload =>
      obtain ⟨⟨onion, next⟩, hanswer, he⟩ := bind_eq_ok.mp hnode
      cases he
      cases hsent
      obtain ⟨key, hopMeta, o', hunwrap, -⟩ := unwrap_of_replyOnion hanswer
      obtain ⟨⟨message, hsplit⟩, hforward, hbackward⟩ := replyOnion_sections hunwrap hanswer
      exact ⟨addressable_of_splitReplyHeader hsplit, hforward.trans_lt h.forward,
        hbackward.trans_lt hreply⟩

/-- The adversary puts vectors into the place of vectors. -/
theorem addressable_tamper {backward : Option (Backward P)} {fl : Flight P}
    (h : fl.onion.Addressable) (hbackward : ∀ b, backward = some b → b.1.length < 2 ^ 64) :
    (Network.tamper backward fl).onion.Addressable := by
  refine ⟨h.header, h.forward, ?_⟩
  cases backward with
  | none => exact h.backward
  | some b => exact hbackward b rfl

/-- An onion of the common size consists of vectors, when its forward section is one. -/
theorem Uniform.addressable (hW : P.Widths w c) {len : ℕ} {o : Onion P} (h : Uniform F len o)
    (hlen : F.totalHeaderLength + 8 + len < 2 ^ 64) : o.Addressable where
  header := by
    apply addressable_of_wellFormed hW (F := F)
    refine ⟨h.count, ?_⟩
    intro bs hbs
    obtain ⟨block, hblock, rfl⟩ := List.mem_map.mp hbs
    exact h.block block hblock
  forward := h.forward.trans_lt hlen
  backward := by
    rw [h.backward]
    omega

/-- INTERNAL: **all that is sent along a run consists of vectors**, whoever built the onion that
the run starts with.  SRC: src/lib.rs:582-611, 697-736 -/
theorem addressable_of_run (hW : P.Widths w c) {net : Network P}
    (hreply : net.reply.length < 2 ^ 64) {adv : Tampering P}
    (hadv : ∀ i b, adv i = some b → b.1.length < 2 ^ 64) {n : ℕ} {s : ℕ × Flight P}
    {events : List (Event P)} {last : Option (ℕ × Flight P)} (hs : s.2.onion.Addressable)
    (hrun : (net.machine adv).run n s = .ok (events, last)) :
    ∀ e ∈ events, ∀ sent, e.sent = some sent → sent.onion.Addressable := by
  refine (Machine.run_invariant (I := fun s => s.2.onion.Addressable)
    (P := fun e => ∀ sent, e.sent = some sent → sent.onion.Addressable) ?_ hs hrun).1
  intro s e next hs hstep
  obtain ⟨e', hnode, he⟩ := bind_eq_ok.mp hstep
  cases he
  have hsent : ∀ sent, e.sent = some sent → sent.onion.Addressable := by
    intro sent hsent
    exact addressable_of_node hW hreply (addressable_tamper hs (hadv s.1)) hnode hsent
  refine ⟨hsent, ?_⟩
  intro s' hs'
  obtain ⟨sent, hsome, rfl⟩ := Option.map_eq_some_iff.mp hs'
  exact hsent sent hsome

/-! ## A node on raw onions -/

/-- An onion and its raw form have the same bytes. -/
theorem serialize_asRaw (o : Onion P) : o.asRaw.serialize = o.serialize := by
  rw [Onion.serialize, Onion.asRaw_header, headerBytes_asRaw, Onion.asRaw_forward,
    Onion.asRaw_backward]
  rfl

/-- INTERNAL: what a node does with an onion can be seen on the wire, where parsed blocks are
not told from raw ones.  SRC: src/lib.rs:582-611, 697-736 -/
theorem node_asRaw (net : Network P) (a : Address) (o : Onion P) :
    (net.node ⟨a, o.asRaw⟩).map Event.onWire = (net.node ⟨a, o⟩).map Event.onWire := by
  rw [Network.node_eq, Network.node_eq]
  dsimp only
  rw [procOnion_asRaw]
  cases net.format.procOnion (net.privateKey a) net.expectedTag o with
  | error fault => rfl
  | ok r =>
      cases r with
      | sender payload => rfl
      | hop next onion =>
          change Except.ok (WireEvent.mk a (.hop next) (some ⟨next, onion.asRaw.serialize⟩)) = _
          rw [serialize_asRaw]
          rfl
      | receiver payload =>
          change (net.format.replyOnion (net.privateKey a) o.asRaw net.reply >>= fun r =>
            _).map Event.onWire =
              (net.format.replyOnion (net.privateKey a) o net.reply >>= fun r => _).map _
          rw [replyOnion_asRaw]
          cases net.format.replyOnion (net.privateKey a) o net.reply with
          | error fault => rfl
          | ok r =>
              change Except.ok (WireEvent.mk a _ (some ⟨r.2, r.1.asRaw.serialize⟩)) = _
              rw [serialize_asRaw]
              rfl

/-! ## The two levels -/

/-- An onion of vectors is read back from its bytes.  SRC: src/lib.rs:189-218 -/
theorem readAs_serialize (hW : P.Widths w c) {o : Onion P} (h : o.Addressable) :
    ReadAs o.serialize o :=
  ⟨o.asRaw, deserialize_serialize hW.tag.fits h, (Onion.beq_iff_asRaw_eq _ _).mpr o.asRaw_asRaw⟩

/-- The onion in flight is what is on the wire, and consists of vectors. -/
def OnWire (s : ℕ × Packet) (s' : ℕ × Flight P) : Prop :=
  s.1 = s'.1 ∧ s.2.node = s'.2.node ∧ ReadAs s.2.bytes s'.2.onion ∧ s'.2.onion.Addressable

/-- INTERNAL: a node that receives the bytes does what it does with the onion.
SRC: src/lib.rs:189-218 -/
theorem wireNode_of_readAs (hW : P.Widths w c) (net : Network P)
    {backward : Option (Backward P)} (hbackward : ∀ b, backward = some b → b.1.length < 2 ^ 64)
    {a : Address} {bs : Bytes} {o : Onion P} (h : ReadAs bs o) (ho : o.Addressable) :
    net.wireNode (Network.tamperBytes P backward ⟨a, bs⟩) =
      (net.node (Network.tamper backward ⟨a, o⟩)).map Event.onWire := by
  obtain ⟨o', hread, hsame⟩ := h
  rw [Onion.beq_iff_asRaw_eq] at hsame
  let tampered := (Network.tamper backward ⟨a, o⟩).onion
  have hraw : (Network.tamper backward ⟨a, o'⟩).onion.asRaw = tampered.asRaw := by
    have hheader : o'.asRaw.header = o.asRaw.header := congrArg Onion.header hsame
    have hforward : o'.asRaw.forward = o.asRaw.forward := congrArg Onion.forward hsame
    have hbwd : o'.asRaw.backward = o.asRaw.backward := congrArg Onion.backward hsame
    rw [Onion.asRaw_forward, Onion.asRaw_forward] at hforward
    rw [Onion.asRaw_backward, Onion.asRaw_backward] at hbwd
    change Onion.mk o'.asRaw.header o'.forward (backward.getD o'.backward) =
      Onion.mk o.asRaw.header o.forward (backward.getD o.backward)
    rw [hheader, hforward, hbwd]
  have hbytes : Network.tamperBytes P backward ⟨a, bs⟩ = ⟨a, tampered.serialize⟩ := by
    rw [Network.tamperBytes, hread]
    change Packet.mk a (Network.tamper backward ⟨a, o'⟩).onion.serialize = _
    rw [← serialize_asRaw, hraw, serialize_asRaw]
  rw [hbytes, Network.wireNode_eq,
    deserialize_serialize hW.tag.fits (addressable_tamper ho hbackward), ok_bind]
  exact node_asRaw net a tampered

/-- INTERNAL: **the network of onions does what the network of bytes does.** -/
theorem wire_simulates (hW : P.Widths w c) (net : Network P) (hreply : net.reply.length < 2 ^ 64)
    {adv : Tampering P} (hadv : ∀ i b, adv i = some b → b.1.length < 2 ^ 64) :
    (net.wireMachine adv).Simulates (net.machine adv) Event.onWire OnWire where
  step_ok := by
    rintro ⟨link, a, bs⟩ ⟨link', a', o⟩ d next ⟨hlink, hnode, hreadAs, ho⟩ hstep
    obtain rfl : link = link' := hlink
    obtain rfl : a = a' := hnode
    obtain ⟨d', hturn, hd⟩ := bind_eq_ok.mp hstep
    rw [wireNode_of_readAs hW net (hadv link) hreadAs ho, map_eq_ok] at hturn
    obtain ⟨e, hevent, rfl⟩ := hturn
    cases hd
    refine ⟨e, _, bind_eq_ok.mpr ⟨e, hevent, rfl⟩, rfl, ?_⟩
    change Option.Rel OnWire ((e.sent.map Flight.packet).map fun p => (link + 1, p))
      (e.sent.map fun fl => (link + 1, fl))
    cases hsent : e.sent with
    | none => exact .none
    | some sent =>
        have haddressable := addressable_of_node hW hreply (addressable_tamper ho (hadv link))
          hevent hsent
        exact .some ⟨rfl, rfl, readAs_serialize hW haddressable, haddressable⟩
  step_error := by
    rintro ⟨link, a, bs⟩ ⟨link', a', o⟩ fault ⟨hlink, hnode, hreadAs, ho⟩ hstep
    obtain rfl : link = link' := hlink
    obtain rfl : a = a' := hnode
    change (net.wireNode _ >>= fun event => _) = _ at hstep
    rw [wireNode_of_readAs hW net (hadv link) hreadAs ho] at hstep
    change (net.node _ >>= fun event => _) = _
    cases hevent : net.node (Network.tamper (adv link) ⟨a, o⟩) with
    | ok e =>
        rw [hevent] at hstep
        cases hstep
    | error fault' =>
        rw [hevent] at hstep
        cases hstep
        rfl

/-- What is read from bytes consists of vectors.  SRC: src/lib.rs:205-218 -/
theorem addressable_of_deserialize {bs : Bytes} {o : Onion P}
    (hread : Onion.deserialize bs = .ok o) : o.Addressable := by
  obtain ⟨⟨blocks, forward, backward⟩, hdecode, hmk⟩ := bind_eq_ok.mp hread
  cases hmk
  obtain ⟨⟨⟨hcount, hblocks⟩, hforward, hbackward, -⟩, -⟩ :=
    (Onion.codec P).deserialize_eq_some (orErr_eq_ok.mp hdecode)
  refine ⟨⟨(List.length_map _).trans_lt hcount, ?_⟩, (Codec.bytes_fits _).mp hforward,
    (Codec.bytes_fits _).mp hbackward⟩
  intro b hb
  obtain ⟨block, hblock, rfl⟩ := List.mem_map.mp hb
  exact (Codec.bytes_fits block).mp (hblocks block hblock)

/-- Bytes that are no onion are refused with one error.  SRC: src/lib.rs:205-218 -/
theorem deserialize_eq_error {bs : Bytes} (hread : ∀ o : Onion P, Onion.deserialize bs ≠ .ok o) :
    Onion.deserialize (P := P) bs = .error (.err .serializationError) := by
  cases hd : (Onion.codec P).deserialize bs with
  | none => rw [Onion.deserialize, hd, orErr_none, error_bind]
  | some r =>
      refine absurd ?_ (hread ⟨r.1.map .raw, r.2.1, r.2.2⟩)
      rw [Onion.deserialize, hd, orErr_some, ok_bind]
      rfl

/-- **The network may as well exchange bytes.**  Whatever bytes are put before a node: when they
are read as an onion, the nodes report, and send, over any number of links and whatever the
adversary makes of the backward sections, what they do when the onion itself is passed on; when
they are not, the node answers with `SerializationError`.  And an onion of vectors, whoever built
it, is carried by the bytes it is sent as, and so is every onion that the nodes send when it is
put before one of them.  SRC: src/lib.rs:189-226, 582-611, 697-736 -/
theorem wire_transparent (hW : P.Widths w c) (net : Network P)
    (hreply : net.reply.length < 2 ^ 64) (adv : Tampering P)
    (hadv : ∀ i b, adv i = some b → b.1.length < 2 ^ 64) (a : Address) :
    (∀ (bs : Bytes) (o : Onion P), Onion.deserialize bs = .ok o →
        ReadAs bs o ∧ o.Addressable) ∧
      (∀ o : Onion P, o.Addressable → ReadAs o.serialize o) ∧
      (∀ o : Onion P, o.Addressable → ∀ n events last,
        (net.machine adv).run n (0, ⟨a, o⟩) = .ok (events, last) → ∀ e ∈ events, ∀ sent,
          e.sent = some sent → sent.onion.Addressable ∧
            ReadAs sent.onion.serialize sent.onion) ∧
      (∀ (bs : Bytes) (o : Onion P), ReadAs bs o → o.Addressable → ∀ n,
        ((net.wireMachine adv).run n (0, ⟨a, bs⟩)).map Prod.fst =
          ((net.machine adv).run n (0, ⟨a, o⟩)).map fun r => r.1.map Event.onWire) ∧
      ∀ bs, (∀ o : Onion P, Onion.deserialize bs ≠ .ok o) → ∀ n,
        (net.wireMachine adv).run (n + 1) (0, ⟨a, bs⟩) = .error (.err .serializationError) := by
  refine ⟨?_, fun o ho => readAs_serialize hW ho, ?_, ?_, ?_⟩
  · intro bs o hread
    exact ⟨⟨o, hread, (Onion.beq_iff_asRaw_eq _ _).mpr rfl⟩, addressable_of_deserialize hread⟩
  · intro o ho n events last hrun e he sent hsent
    have haddressable := addressable_of_run hW hreply hadv ho hrun e he sent hsent
    exact ⟨haddressable, readAs_serialize hW haddressable⟩
  · intro bs o hreadAs ho n
    exact (wire_simulates hW net hreply hadv).run_events n ⟨rfl, rfl, hreadAs, ho⟩
  · intro bs hread n
    apply Machine.run_succ_of_error
    have hfault := deserialize_eq_error hread
    change (net.wireNode _ >>= fun event => _) = _
    rw [Network.tamperBytes, hfault, Network.wireNode_eq, hfault, error_bind, error_bind]

/-- The bytes of a formed onion make their way over three links, through a relay and the receiver
back to the sender, and what these two send is read back. -/
theorem wire_transparent_sample : ∃ (o : Onion samplePrimitives)
    (expected : ExpectedResponse samplePrimitives) (rng' : ℕ)
    (events : List (Event samplePrimitives)),
    (sampleFormat 3).formOnion [sampleAddress 7, sampleAddress 4] [sampleAddress 8] [1, 2] 0 =
        .ok ((o, expected), rng') ∧
      events.map Event.outcome =
        [.hop (sampleAddress 4), .receiver [1, 2] (sampleAddress 8), .sender [5, 6]] ∧
      ((Network.wireMachine ⟨sampleFormat 3, samplePrivateKey, onlyExpected expected, [5, 6]⟩
        (noTampering samplePrimitives)).run 3 (0, ⟨sampleAddress 7, o.serialize⟩)).map Prod.fst =
          .ok (events.map Event.onWire) ∧
      ∀ e ∈ events, ∀ sent, e.sent = some sent → ReadAs sent.onion.serialize sent.onion := by
  have hfwd : Primitives.Routable (sampleFormat 3) samplePrivateKey
      [sampleAddress 7, sampleAddress 4] := sampleFormat_routable 3 (by decide) (by decide)
  have hbwd : Primitives.Routable (sampleFormat 3) samplePrivateKey [sampleAddress 8] :=
    sampleFormat_routable 3 (by decide) (by decide)
  have hpayload : ([1, 2] : Bytes).length < 2 ^ 64 := by decide
  have hreply : ([5, 6] : Bytes).length < 2 ^ 64 := by decide
  have hsize : (sampleFormat 3).totalHeaderLength + 8 + 2 < 2 ^ 64 := by decide
  obtain ⟨o, expected, rng', -, -, -, -, -, -, hform, -⟩ := formOnion_spec samplePrimitives_lawful
    samplePrimitives_widths.tag hfwd hbwd [1, 2] (0 : ℕ)
  let net : Network samplePrimitives :=
    ⟨sampleFormat 3, samplePrivateKey, onlyExpected expected, [5, 6]⟩
  obtain ⟨legsF, turn, legsB, home, htravels⟩ := travels_of_formOnion samplePrimitives_lawful
    samplePrimitives_widths rfl net hfwd hbwd hpayload hform
  have ho : o.Addressable :=
    (htravels.uniform samplePrimitives_widths.tag).addressable samplePrimitives_widths hsize
  obtain ⟨events, halone⟩ := deliveryRun_of_travels samplePrimitives_lawful
    samplePrimitives_widths.tag hbwd.ne_nil htravels rfl
  obtain ⟨-, hreadAs, hsends, hrun, -⟩ := wire_transparent samplePrimitives_widths net
    hreply (noTampering samplePrimitives) (fun _ _ h => by cases h) (sampleAddress 7)
  have hthree : (net.machine (noTampering samplePrimitives)).run 3 (0, ⟨sampleAddress 7, o⟩) =
      .ok (events, none) := halone.run
  refine ⟨o, expected, rng', events, hform, halone.outcomes, ?_, ?_⟩
  · have hwire := hrun _ _ (hreadAs o ho) ho 3
    rw [hthree] at hwire
    exact hwire
  · intro e he sent hsent
    exact (hsends o ho 3 events none hthree e he sent hsent).2

end Eror.Analysis
