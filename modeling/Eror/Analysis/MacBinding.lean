import Eror.Analysis.SenderRole

/-!
# What a layer's MAC binds

`unwrap` accepts an onion when the tag of one byte string is the tag in its first block.  That
string determines the data of the first block, the bytes of every other block and the forward
section (`macInput_inj`), so two accepted onions with the same tag and key either agree in all
of them or exhibit a collision of the MAC, and a change to an accepted onion that is not
answered with `MacMismatch` exhibits one.
-/

set_option autoImplicit false

namespace Eror.Analysis

open Library Model

variable {R : Type} {P : Primitives R} {w : ℕ}

/-- Two different byte strings with the same tag under the key that `unwrap` derives. -/
def Collides (P : Primitives R) (key : P.SymmetricKey) (x y : Bytes) : Prop :=
  x ≠ y ∧ P.tag (P.deriveKey .mac key) x = P.tag (P.deriveKey .mac key) y

/-- INTERNAL: the input of the MAC is uniquely readable.  SRC: src/lib.rs:21-23, 137-144, 556 -/
theorem macInput_inj {data data' payload payload' : Bytes} {headers headers' : List (Header P)}
    (hdata : data.length < 2 ^ 64) (hdata' : data'.length < 2 ^ 64)
    (hheaders : AddressableHeader headers) (hheaders' : AddressableHeader headers')
    (hpayload : payload.length < 2 ^ 64) (hpayload' : payload'.length < 2 ^ 64)
    (h : macInput data headers payload = macInput data' headers' payload') :
    data = data' ∧ headerBytes headers = headerBytes headers' ∧ payload = payload' := by
  have hfit : (Codec.bytes.pair (Codec.bytes.list.pair Codec.bytes)).Fits
      (data, headerBytes headers, payload) :=
    ⟨(Codec.bytes_fits _).mpr hdata, hheaders.fits, (Codec.bytes_fits _).mpr hpayload⟩
  have hfit' : (Codec.bytes.pair (Codec.bytes.list.pair Codec.bytes)).Fits
      (data', headerBytes headers', payload') :=
    ⟨(Codec.bytes_fits _).mpr hdata', hheaders'.fits, (Codec.bytes_fits _).mpr hpayload'⟩
  have heq := Codec.encode_inj _ hfit hfit' h
  rwa [Prod.mk.injEq, Prod.mk.injEq] at heq

/-- The data of a parsed block are a vector. -/
theorem data_length_of_intoParsed {h : Header P} {block : HeaderBlock P}
    (hparse : h.intoParsed = .ok block) : block.data.length < 2 ^ 64 := by
  rw [Header.intoParsed_eq, HeaderBlock.unpack, orErr_eq_ok] at hparse
  obtain ⟨hfits, -⟩ := (HeaderBlock.codec P).deserialize_eq_some hparse
  exact (Codec.bytes_fits _).mp hfits.2

/-- An onion that is unwrapped opens with its key, and its first block has the tag of the rest.
SRC: src/lib.rs:551-559 -/
theorem tag_of_unwrap (hw : P.tagCodec.FixedWidth w) {F : OnionFormat P} {sk : P.PrivateKey}
    {o n : Onion P} {first : Header P} {rest : List (Header P)} {block : HeaderBlock P}
    {key : P.SymmetricKey} {hopMeta : Meta} (hheader : o.header = first :: rest)
    (hparse : first.intoParsed = .ok block) (h : F.unwrap sk o = .ok (key, hopMeta, n)) :
    Opens P sk o block key hopMeta ∧
      P.tag (P.deriveKey .mac key) (macInput block.data rest o.forward) = block.tag := by
  obtain ⟨⟨block', hopen, htag⟩, -, -⟩ := authentic_of_unwrap hw h
  have hblock : block' = block := by
    obtain ⟨first', rest', plain, hh, hb, -, -⟩ := hopen
    rw [hheader] at hh
    obtain ⟨rfl, rfl⟩ := List.cons.inj hh
    rw [hparse] at hb
    exact (Except.ok.inj hb).symm
  subst hblock
  refine ⟨hopen, ?_⟩
  rwa [layerTag, hheader] at htag

/-- **A layer's MAC binds everything but the backward section.**  Two accepted onions whose
first blocks carry the same tag and decrypt to the same key agree in the data of the first
block, in all other blocks and in the forward section, or the strings their tags were computed
of collide.  In particular an onion that keeps the first block of an accepted one and differs
in another block or in the forward section is answered with `MacMismatch`, or collides.
SRC: src/lib.rs:551-559 -/
theorem unwrap_mac_binds (hw : P.tagCodec.FixedWidth w) (F : OnionFormat P) (sk : P.PrivateKey)
    (o o' : Onion P) (first first' : Header P) (rest rest' : List (Header P))
    (block : HeaderBlock P) (key : P.SymmetricKey) (hopMeta : Meta) (n : Onion P)
    (ho : o.Addressable) (ho' : o'.Addressable) (hheader : o.header = first :: rest)
    (hheader' : o'.header = first' :: rest') (hparse : first.intoParsed = .ok block)
    (haccept : F.unwrap sk o = .ok (key, hopMeta, n)) :
    (∀ block' hopMeta' n', first'.intoParsed = .ok block' → block'.tag = block.tag →
        F.unwrap sk o' = .ok (key, hopMeta', n') →
        (block.data = block'.data ∧ headerBytes rest = headerBytes rest' ∧
            o.forward = o'.forward) ∨
          Collides P key (macInput block.data rest o.forward)
            (macInput block'.data rest' o'.forward)) ∧
      (first'.intoBytes = first.intoBytes →
        ¬ (headerBytes rest = headerBytes rest' ∧ o.forward = o'.forward) →
        F.unwrap sk o' = .error (.err .macMismatch) ∨
          Collides P key (macInput block.data rest o.forward)
            (macInput block.data rest' o'.forward)) := by
  obtain ⟨hopen, htag⟩ := tag_of_unwrap hw hheader hparse haccept
  have hrest : AddressableHeader rest := by simpa [hheader] using ho.header.tail
  have hrest' : AddressableHeader rest' := by simpa [hheader'] using ho'.header.tail
  have hdata := data_length_of_intoParsed hparse
  constructor
  · intro block' hopMeta' n' hparse' hsame haccept'
    obtain ⟨-, htag'⟩ := tag_of_unwrap hw hheader' hparse' haccept'
    have hdata' := data_length_of_intoParsed hparse'
    by_cases heq : macInput block.data rest o.forward = macInput block'.data rest' o'.forward
    · exact Or.inl (macInput_inj hdata hdata' hrest hrest' ho.forward ho'.forward heq)
    · exact Or.inr ⟨heq, by rw [htag, htag', hsame]⟩
  · intro hfirst hdiff
    have hopen' := hopen.of_first hheader hheader' hfirst
    have hne : macInput block.data rest o.forward ≠ macInput block.data rest' o'.forward :=
      fun heq => hdiff
        (macInput_inj hdata hdata hrest hrest' ho.forward ho'.forward heq).2
    by_cases htag' : layerTag P key block.data o' = block.tag
    · refine Or.inr ⟨hne, ?_⟩
      rw [htag, ← htag', layerTag, hheader']
      rfl
    · exact Or.inl (by rw [unwrap_of_opens hopen', if_pos htag'])

/-- An onion that was accepted with an empty forward section is not accepted with another one,
or the sample MAC collides. -/
theorem unwrap_mac_binds_sample : ∃ o o' : Onion samplePrimitives,
    o.header = o'.header ∧ o.forward ≠ o'.forward ∧
      ((sampleFormat 2).unwrap (samplePrivateKey (sampleAddress 7)) o' =
          .error (.err .macMismatch) ∨
        ∃ key x y, Collides samplePrimitives key x y) := by
  let o := sampleSenderOnion 1 1 ([], samplePrimitives.defaultTag)
  let o' : Onion samplePrimitives := ⟨o.header, [1], o.backward⟩
  obtain ⟨n, hn⟩ := unwrap_sampleSenderOnion 1 1 ([], samplePrimitives.defaultTag)
  obtain ⟨⟨block, ⟨first, rest, -, hh, hb, -, -⟩, -⟩, -, -⟩ :=
    authentic_of_unwrap (Codec.array_fixedWidth 16) hn
  have hheader : AddressableHeader o.header := ⟨by decide, by decide⟩
  have hbinds := unwrap_mac_binds (Codec.array_fixedWidth 16) (sampleFormat 2) _ o o' first first
    rest rest block _ _ n ⟨hheader, by decide, by decide⟩ ⟨hheader, by decide, by decide⟩ hh hh hb
    hn
  have hne : o.forward ≠ o'.forward := by decide
  refine ⟨o, o', rfl, hne, ?_⟩
  exact (hbinds.2 rfl fun hsame => hne hsame.2).imp_right fun hcollides => ⟨_, _, _, hcollides⟩

end Eror.Analysis
