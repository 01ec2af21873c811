import Eror.Analysis.FormedCircuit
import Eror.Analysis.MacBinding

/-!
# What the identifier of a reply identifies

The sender looks a reply up under its packed header, the concatenation of the blocks without
their boundaries.  As a function of the header it is not injective.  Among accepted onions it
is, up to a collision of the MAC: the first block is read off the front of the packed header
and does not depend on where the block ends (`block_of_packedHeader`), the key is decrypted
from it, and the MAC under that key frames all the other blocks.
-/

set_option autoImplicit false

namespace Eror.Analysis

open Library Model

variable {R : Type} {P : Primitives R} {w c : ℕ}

/-- The identifier of an onion begins with its first block. -/
theorem packedHeader_eq_append {o : Onion P} {first : Header P} {rest : List (Header P)}
    (h : o.header = first :: rest) :
    o.packedHeader = first.intoBytes ++ (headerBytes rest).flatten := by
  rw [Onion.packedHeader, h, List.flatMap_cons, headerBytes, List.flatMap_def]

/-- The block that `unwrap` parses can be read off the packed header.
SRC: src/lib.rs:78-80, 116-122, 230-236, 551 -/
theorem block_of_packedHeader {sk : P.PrivateKey} {o : Onion P} {block : HeaderBlock P}
    {key : P.SymmetricKey} {hopMeta : Meta} (h : Opens P sk o block key hopMeta) :
    (HeaderBlock.codec P).deserialize o.packedHeader = some block := by
  obtain ⟨first, rest, -, hheader, hparse, -, -⟩ := h
  rw [Header.intoParsed_eq, HeaderBlock.unpack, orErr_eq_ok] at hparse
  rw [packedHeader_eq_append hheader]
  exact (HeaderBlock.codec P).deserialize_append hparse _

/-- The first block decides what `unwrap` decrypts. -/
theorem Opens.unique {sk : P.PrivateKey} {o o' : Onion P} {block : HeaderBlock P}
    {key key' : P.SymmetricKey} {hopMeta hopMeta' : Meta} (h : Opens P sk o block key hopMeta)
    (h' : Opens P sk o' block key' hopMeta') : key = key' ∧ hopMeta = hopMeta' := by
  obtain ⟨-, -, plain, -, -, hdec, hread⟩ := h
  obtain ⟨-, -, plain', -, -, hdec', hread'⟩ := h'
  have hplain : plain = plain' := Except.ok.inj (hdec.symm.trans hdec')
  subst hplain
  exact Prod.mk.inj (Option.some.inj (hread.symm.trans hread'))

/-- The two onions have the same blocks and the same forward section, or the two byte strings
that `unwrap` passes to `tag` for them are different and have the same tag.
SRC: src/lib.rs:551-559 -/
def SameFrontOrCollision (P : Primitives R) (sk : P.PrivateKey) (o o' : Onion P) : Prop :=
  (headerBytes o.header = headerBytes o'.header ∧ o.forward = o'.forward) ∨
    ∃ block key hopMeta, Opens P sk o block key hopMeta ∧ Opens P sk o' block key hopMeta ∧
      Collides P key (macInput block.data o.header.tail o.forward)
        (macInput block.data o'.header.tail o'.forward)

/-- INTERNAL: authentic onions with the same packed header open to the same key, and have the
same front or collide.  SRC: src/lib.rs:230-236, 551-559 -/
theorem authentic_of_packedHeader {sk : P.PrivateKey} {o o' : Onion P}
    {key key' : P.SymmetricKey} {hopMeta hopMeta' : Meta} (ho : AddressableHeader o.header)
    (ho' : AddressableHeader o'.header) (hforward : o.forward.length < 2 ^ 64)
    (hforward' : o'.forward.length < 2 ^ 64) (h : Authentic P sk o key hopMeta)
    (h' : Authentic P sk o' key' hopMeta') (hsame : o.packedHeader = o'.packedHeader) :
    (key = key' ∧ hopMeta = hopMeta') ∧ SameFrontOrCollision P sk o o' := by
  obtain ⟨block, hopen, htag⟩ := h
  obtain ⟨block', hopen', htag'⟩ := h'
  have hblock : block = block' := by
    have hread := block_of_packedHeader hopen
    rw [hsame, block_of_packedHeader hopen'] at hread
    exact (Option.some.inj hread).symm
  subst hblock
  obtain ⟨hkey, hmeta⟩ := hopen.unique hopen'
  subst hkey hmeta
  refine ⟨⟨rfl, rfl⟩, ?_⟩
  by_cases heq : macInput block.data o.header.tail o.forward =
      macInput block.data o'.header.tail o'.forward
  · left
    obtain ⟨first, rest, -, hheader, hparse, -, -⟩ := hopen
    obtain ⟨first', rest', -, hheader', -, -, -⟩ := hopen'
    have hdata := data_length_of_intoParsed hparse
    obtain ⟨-, hrest, hsection⟩ := macInput_inj hdata hdata ho.tail ho'.tail hforward
      hforward' heq
    rw [hheader, hheader', List.tail_cons, List.tail_cons] at hrest
    -- the rests of the packed headers agree, so their beginnings do
    rw [packedHeader_eq_append hheader, packedHeader_eq_append hheader', hrest] at hsame
    have hfirst : first.intoBytes = first'.intoBytes := List.append_cancel_right hsame
    refine ⟨?_, hsection⟩
    rw [hheader, hheader', headerBytes_cons, headerBytes_cons, hfirst, hrest]
  · right
    refine ⟨block, key, hopMeta, hopen, hopen', heq, ?_⟩
    exact htag.trans htag'.symm

/-- INTERNAL: the onion whose packed header `form_onion` returns as the identifier is one that
the last backward hop, which is the sender, accepts.  SRC: src/lib.rs:650-681 -/
theorem FormedBy.identified (hW : P.Widths w c) (hsealed : sealedLength P w c < 2 ^ 64)
    {F : OnionFormat P}
    {sk : Address → P.PrivateKey} {fwd bwd : List Address} {payload : Bytes} {o : Onion P}
    {expected : ExpectedResponse P} {masterKey key : P.SymmetricKey} {replyTo : Address}
    {back₁ backₙ : Onion P} {plans : List (HopPlan P)}
    (h : FormedBy F fwd bwd payload o expected masterKey key replyTo back₁ backₙ plans)
    (hreg : ∀ a ∈ bwd, Primitives.Registered F sk a) :
    ∃ home, bwd.getLast? = some home ∧ AddressableHeader backₙ.header ∧
      Authentic P (sk home) backₙ masterKey (OnionFormat.metaBackward fwd.length bwd.length) ∧
      backₙ.forward.length = F.totalHeaderLength + 8 + payload.length := by
  obtain ⟨tag, init, last, garbage, hB, -⟩ := h.backward
  have hkey : last.key = masterKey := by
    have hlast := hB.keys_getLast?
    rw [OnionFormat.keysBackward, List.getLast?_concat] at hlast
    exact (Option.some.inj hlast).symm
  refine ⟨last.address, ?_, hB.addressable_last hW hsealed,
    hkey ▸ hB.authentic hW (hB.opens hW hreg), ?_⟩
  · rw [← hB.planned.hops, List.map_append]
    exact List.getLast?_concat
  · have hpeeled : backₙ.forward = peelAll (peelForward P) (init.map HopPlan.key)
      (randomPayload F key payload.length) := hB.carries
    rw [hpeeled, peelAll_peelForward_length, randomPayload, P.prng_length, List.length_replicate]

/-- **The identifier names one onion.**  Two onions that `unwrap` accepts with the same private
key and that have the same packed header have the same blocks and the same forward section, or
their MAC inputs collide.  So what the sender accepts under the identifier that `form_onion`
returned carries the header of the onion that was predicted to arrive there, or exhibits a
collision with it.  SRC: src/lib.rs:228-237, 545-559, 714-727 -/
theorem packedHeader_identifies [Rng R] (hw : P.tagCodec.FixedWidth w) (F : OnionFormat P) :
    (∀ sk o o' key key' hopMeta hopMeta' n n', o.Addressable → o'.Addressable →
        F.unwrap sk o = .ok (key, hopMeta, n) → F.unwrap sk o' = .ok (key', hopMeta', n') →
        o.packedHeader = o'.packedHeader → SameFrontOrCollision P sk o o') ∧
      ∀ (sk : Address → P.PrivateKey) c fwd bwd payload rng o expected rng', P.Lawful →
        P.Widths w c → sealedLength P w c < 2 ^ 64 → Primitives.Routable F sk fwd →
        Primitives.Routable F sk bwd → F.totalHeaderLength + 8 + payload.length < 2 ^ 64 →
        F.formOnion fwd bwd payload rng = .ok ((o, expected), rng') →
        ∃ home back masterKey, bwd.getLast? = some home ∧
          Authentic P (sk home) back masterKey
            (OnionFormat.metaBackward fwd.length bwd.length) ∧
          expected.identifier = back.packedHeader ∧
          ∀ reply key hopMeta n, reply.Addressable →
            F.unwrap (sk home) reply = .ok (key, hopMeta, n) →
            reply.packedHeader = expected.identifier →
            SameFrontOrCollision P (sk home) back reply := by
  constructor
  · intro sk o o' key key' hopMeta hopMeta' n n' ho ho' haccept haccept' hsame
    obtain ⟨hauth, -, -⟩ := authentic_of_unwrap hw haccept
    obtain ⟨hauth', -, -⟩ := authentic_of_unwrap hw haccept'
    exact (authentic_of_packedHeader ho.header ho'.header ho.forward ho'.forward hauth hauth'
      hsame).2
  · intro sk c fwd bwd payload rng o expected rng' hP hW hsealed hfwd hbwd hsize hform
    obtain ⟨o', expected', rng'', masterKey, key, replyTo, back₁, back, plans, hform', hformed⟩ :=
      formOnion_spec hP hW.tag hfwd hbwd payload rng
    rw [hform] at hform'
    cases hform'
    obtain ⟨home, hhome, hheader, hauth, hlen⟩ := hformed.identified hW hsealed hbwd.registered
    refine ⟨home, back, masterKey, hhome, hauth, hformed.identifier, ?_⟩
    intro reply key' hopMeta n hreply haccept hsame
    obtain ⟨hauth', -, -⟩ := authentic_of_unwrap hw haccept
    rw [hformed.identifier] at hsame
    exact (authentic_of_packedHeader hheader hreply.header (hlen ▸ hsize)
      hreply.forward hauth hauth' hsame.symm).2

/-- What is sealed to the node at the address seven. -/
def sampleKeyMeta : samplePrimitives.SymmetricKey × Meta :=
  (List.Vector.replicate 16 9, ⟨.hop, sampleAddress 1⟩)

/-- An onion for that node whose first block is tagged for the rest of the header and the forward
section. -/
def sampleTagged (rest : List (Header samplePrimitives)) (forward : Bytes) :
    Onion samplePrimitives :=
  ⟨taggedHeader samplePrimitives sampleKeyMeta.1
    (sampleSeal 7 ((keyMetaCodec samplePrimitives).encode sampleKeyMeta)) rest forward, forward,
    ([], samplePrimitives.defaultTag)⟩

/-- The first layer of the sample is authentic, whatever is behind it. -/
theorem unwrap_sampleTagged (rest : List (Header samplePrimitives)) (forward : Bytes) :
    ∃ n, (sampleFormat 1).unwrap (samplePrivateKey (sampleAddress 7)) (sampleTagged rest forward) =
      .ok (sampleKeyMeta.1, sampleKeyMeta.2, n) := by
  have hauth : Authentic samplePrimitives (samplePrivateKey (sampleAddress 7))
      (sampleTagged rest forward) sampleKeyMeta.1 sampleKeyMeta.2 :=
    authentic_tagged samplePrimitives_widths
      (samplePrimitives_isKeyPair 7 0 _ (keyMeta_length_lt samplePrimitives_widths _))
      (cipher_length_lt samplePrimitives_widths 0 (7 : UInt8) sampleKeyMeta) rest forward _
  have hlen : rounds (sampleFormat 1) < (sampleTagged rest forward).header.length := by
    rw [rounds_of_pos (by decide)]
    exact Nat.succ_pos _
  exact ⟨_, unwrap_of_authentic (Codec.array_fixedWidth 16) hauth hlen⟩

/-- Two onions that are both accepted have the same packed header and not the same number of
blocks, and their MAC inputs collide; and what is accepted under the identifier of a formed onion
carries the header that was predicted, or collides. -/
theorem packedHeader_identifies_sample :
    (sampleTagged [.raw []] []).packedHeader = (sampleTagged [] [88]).packedHeader ∧
    (sampleTagged [.raw []] []).header.length ≠ (sampleTagged [] [88]).header.length ∧
    SameFrontOrCollision samplePrimitives (samplePrivateKey (sampleAddress 7))
      (sampleTagged [.raw []] []) (sampleTagged [] [88]) ∧
    ∃ o expected rng', (sampleFormat 3).formOnion [sampleAddress 7, sampleAddress 8]
        [sampleAddress 9] [1, 2] (0 : ℕ) = .ok ((o, expected), rng') ∧
      ∃ back : Onion samplePrimitives, expected.identifier = back.packedHeader ∧
        ∀ reply key hopMeta n, reply.Addressable →
          (sampleFormat 3).unwrap (samplePrivateKey (sampleAddress 9)) reply =
            .ok (key, hopMeta, n) →
          reply.packedHeader = expected.identifier →
          SameFrontOrCollision samplePrimitives (samplePrivateKey (sampleAddress 9)) back
            reply := by
  have hfwd : Primitives.Routable (sampleFormat 3) samplePrivateKey
      [sampleAddress 7, sampleAddress 8] := sampleFormat_routable 3 (by decide) (by decide)
  have hbwd : Primitives.Routable (sampleFormat 3) samplePrivateKey [sampleAddress 9] :=
    sampleFormat_routable 3 (by decide) (by decide)
  have hsame : (sampleTagged [.raw []] []).packedHeader = (sampleTagged [] [88]).packedHeader := by
    decide +kernel
  obtain ⟨n, hn⟩ := unwrap_sampleTagged [.raw []] []
  obtain ⟨n', hn'⟩ := unwrap_sampleTagged [] [88]
  refine ⟨hsame, by decide, ?_, ?_⟩
  · exact (packedHeader_identifies (Codec.array_fixedWidth 16) (sampleFormat 1)).1 _ _ _ _ _ _ _ n
      n' ⟨⟨by decide, by decide⟩, by decide, by decide⟩
      ⟨⟨by decide, by decide⟩, by decide, by decide⟩ hn hn' hsame
  · obtain ⟨o, expected, rng', -, -, -, -, -, -, hform, -⟩ := formOnion_spec
      samplePrimitives_lawful samplePrimitives_widths.tag hfwd hbwd [1, 2] (0 : ℕ)
    obtain ⟨home, back, masterKey, hhome, -, hid, haccepted⟩ :=
      (packedHeader_identifies (Codec.array_fixedWidth 16) (sampleFormat 3)).2 samplePrivateKey 40 _
        _ _ _ o expected rng' samplePrimitives_lawful samplePrimitives_widths (by decide) hfwd hbwd
        (by decide) hform
    cases hhome
    exact ⟨o, expected, rng', hform, back, hid, haccepted⟩

end Eror.Analysis
