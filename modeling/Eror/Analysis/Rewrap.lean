import Eror.Analysis.MacBinding

/-!
# Wrapping and unwrapping undo each other

`unwrap` undoes `wrap` on any blocks and any payload (`unwrap_wrap`).  The other way round
nothing is lost either, with one exception: the first block is parsed, and the parser stops at
the end of the encoded tag and data.  Bytes that follow them there are not covered by the MAC
and do not change what `unwrap` returns (`unwrap_append_first`), so wrapping again gives back
the received onion without them (`wrap_unwrap`).
-/

set_option autoImplicit false

namespace Eror.Analysis

open Library Model

variable {R : Type} {P : Primitives R} {w c : ℕ} {F : OnionFormat P}

/-! ## Unwrapping what was wrapped -/

/-- **`unwrap` undoes `wrap`**, whatever the blocks and the payload are: the node obtains the
key and the meta-information, the wrapped blocks with the decrypted zero block behind them, the
payload, and its own `ae_unwrap` of the backward section.
SRC: src/lib.rs:358-370, 386-414, 545-575 -/
theorem unwrap_wrap (hP : P.Lawful) (hW : P.Widths w c) (F : OnionFormat P) (sk : P.PrivateKey)
    (pk : P.PublicKey) (hpk : P.IsKeyPair sk pk) (rng : R) (key : P.SymmetricKey)
    (hopMeta : Meta) (headers : List (Header P)) (hcount : headers.length + 1 = F.pathLimit)
    (payload : Bytes) (backward : Backward P) :
    let ciphertext := (P.asymmetricEncrypt rng pk ((keyMetaCodec P).encode (key, hopMeta))).1
    let wrapped := wrap P key ciphertext headers payload
    ∃ n, F.unwrap sk ⟨wrapped.1, wrapped.2, backward⟩ = .ok (key, hopMeta, n) ∧
      headerBytes n.header = headerBytes headers ++
        [P.symmetricDecrypt (P.deriveKey .symEnc key) (F.maxPathLength + 1)
          (List.replicate F.singleHeaderLength 0)] ∧
      n.forward = payload ∧ aeUnwrap P key backward = .ok n.backward := by
  have hunwrap := unwrap_forge hW hpk rng key hopMeta hcount payload backward
  refine ⟨_, hunwrap, ?_, ?_, aeUnwrap_eq hW.tag key backward⟩
  · have hlen : (forge P rng pk key hopMeta headers payload backward).header.length =
        F.pathLimit := by
      rw [forge, wrapOnion_header_length, hcount]
    have hfront := front_peelOnion (F := F) key (by omega) hlen
    have hblocks := congrArg Front.blocks hfront
    change headerBytes _ = _ at hblocks
    rw [hblocks, peelFront, front, forge, wrapOnion, headerBytes_wrap_cons]
    exact shiftOut_cons_mapIdx (decBlock_encBlock hP _) _ _ _
  · exact hP.symmetricDecrypt_symmetricEncrypt _ _ _

/-- A parsed and a raw block of different lengths are wrapped and come back. -/
theorem unwrap_wrap_sample : ∃ o n key fill,
    (sampleFormat 3).unwrap (samplePrivateKey (sampleAddress 7)) o =
        .ok (key, ⟨.hop, sampleAddress 8⟩, n) ∧
      headerBytes n.header = headerBytes
        [.structured samplePrimitives.defaultTag [1], .raw [2, 3]] ++ [fill] ∧
      n.forward = [4] := by
  obtain ⟨n, hunwrap, hblocks, hforward, -⟩ := unwrap_wrap samplePrimitives_lawful
    samplePrimitives_widths (sampleFormat 3) _ _
    (samplePrimitives_isKeyPair (samplePrivateKey (sampleAddress 7))) (0 : ℕ)
    (List.Vector.replicate 16 9) ⟨.hop, sampleAddress 8⟩
    [.structured samplePrimitives.defaultTag [1], .raw [2, 3]] rfl [4]
    ([], samplePrimitives.defaultTag)
  exact ⟨_, n, _, _, hunwrap, hblocks, hforward⟩

/-! ## Wrapping what was unwrapped -/

/-- What the first block of an accepted onion parses as, with the bytes that follow it there.
SRC: src/lib.rs:78-80, 116-122 -/
theorem intoBytes_of_intoParsed {h : Header P} {block : HeaderBlock P}
    (hparse : h.intoParsed = .ok block) : ∃ extra, h.intoBytes = block.pack ++ extra := by
  rw [Header.intoParsed_eq, HeaderBlock.unpack, orErr_eq_ok] at hparse
  obtain ⟨-, extra, hbytes⟩ := (HeaderBlock.codec P).deserialize_eq_some hparse
  exact ⟨extra, hbytes.symm⟩

/-- The onion with bytes appended to its first block. -/
def appendFirst (o : Onion P) (extra : Bytes) : Onion P :=
  { o with header := .raw ((headerBytes o.header).headD [] ++ extra) :: o.header.tail }

/-- Only the bytes of the first block are changed. -/
theorem appendFirst_header {o : Onion P} {first : Header P} {rest : List (Header P)}
    (h : o.header = first :: rest) (extra : Bytes) :
    (appendFirst o extra).header = .raw (first.intoBytes ++ extra) :: rest := by
  rw [appendFirst, h]
  rfl

/-- **Bytes behind the first block go unnoticed**: an accepted onion is accepted with any bytes
appended to its first block, and unwraps to the same onion.  SRC: src/lib.rs:78-80, 551-573 -/
theorem unwrap_append_first (hw : P.tagCodec.FixedWidth w) {sk : P.PrivateKey} {o n : Onion P}
    {key : P.SymmetricKey} {hopMeta : Meta} (hcount : o.header.length = F.pathLimit)
    (haccept : F.unwrap sk o = .ok (key, hopMeta, n)) (extra : Bytes) :
    F.unwrap sk (appendFirst o extra) = .ok (key, hopMeta, n) := by
  obtain ⟨⟨block, ⟨first, rest, plain, hheader, hparse, hdec, hread⟩, htag⟩, hlen, hn⟩ :=
    authentic_of_unwrap hw haccept
  have hheader' := appendFirst_header hheader extra
  have hcount' : (appendFirst o extra).header.length = F.pathLimit := by
    rw [← hcount, hheader', hheader, List.length_cons, List.length_cons]
  have hpos : 0 < F.pathLimit := by omega
  have hauth : Authentic P sk (appendFirst o extra) key hopMeta := by
    refine ⟨block, ⟨_, rest, plain, hheader', intoParsed_append hparse extra, hdec, hread⟩, ?_⟩
    rw [layerTag, hheader, List.tail_cons] at htag
    rw [layerTag, hheader', List.tail_cons]
    exact htag
  have htail : (headerBytes (appendFirst o extra).header).tail = (headerBytes o.header).tail := by
    rw [hheader', hheader, headerBytes_cons, headerBytes_cons, List.tail_cons, List.tail_cons]
  rw [unwrap_of_authentic hw hauth (by omega), hn, peelOnion_of_shape key hpos hcount,
    peelOnion_of_shape key hpos hcount', peelFront, peelFront, front, front, shiftOut, shiftOut,
    htail]
  rfl

/-- INTERNAL: on a header of as many blocks as the limit, the blocks that are wrapped again are the
received ones behind the first.  SRC: src/lib.rs:396-403, 560-569 -/
theorem encBlock_peeled (hP : P.Lawful) (key : P.SymmetricKey) {o : Onion P} {first : Header P}
    {rest : List (Header P)} (hheader : o.header = first :: rest)
    (hcount : o.header.length = F.pathLimit) :
    (headerBytes (peelOnion F key o).header.dropLast).mapIdx
        (encBlock P (P.deriveKey .symEnc key)) = headerBytes rest := by
  have hpos : 0 < F.pathLimit := by
    rw [← hcount, hheader]
    exact Nat.succ_pos _
  have hrow := shiftIn_shiftOut (encBlock_decBlock hP (P.deriveKey .symEnc key))
    (F.fillBlock (P.deriveKey .symEnc key)) [] (headerBytes o.header)
  rw [shiftIn, List.cons.injEq] at hrow
  have htail : (headerBytes o.header).tail = headerBytes rest := by
    rw [hheader]
    rfl
  rw [peelOnion_of_shape key hpos hcount, ← htail, ← hrow.2, headerBytes, List.map_dropLast]
  congr 2
  exact headerBytes_map_raw _

/-- INTERNAL: what `wrap` makes of an unwrapped onion: the canonical first block, the other blocks
as they were received, and the received forward section.  SRC: src/lib.rs:386-414, 545-575 -/
theorem wrap_peeled (hP : P.Lawful) (hw : P.tagCodec.FixedWidth w) {sk : P.PrivateKey}
    {o n : Onion P} {first : Header P} {rest : List (Header P)} {block : HeaderBlock P}
    {key : P.SymmetricKey} {hopMeta : Meta} (hheader : o.header = first :: rest)
    (hparse : first.intoParsed = .ok block) (hcount : o.header.length = F.pathLimit)
    (haccept : F.unwrap sk o = .ok (key, hopMeta, n)) :
    headerBytes (wrap P key block.data n.header.dropLast n.forward).1 =
        block.pack :: headerBytes rest ∧
      (wrap P key block.data n.header.dropLast n.forward).2 = o.forward := by
  obtain ⟨-, htag⟩ := tag_of_unwrap hw hheader hparse haccept
  obtain ⟨-, -, rfl⟩ := authentic_of_unwrap hw haccept
  have hblocks := encBlock_peeled (F := F) hP key hheader hcount
  have hforward : (wrap P key block.data (peelOnion F key o).header.dropLast
      (peelOnion F key o).forward).2 = o.forward := hP.symmetricEncrypt_symmetricDecrypt _ _ _
  refine ⟨?_, hforward⟩
  have hcons := headerBytes_wrap_cons key block.data (peelOnion F key o).header.dropLast
    (peelOnion F key o).forward
  rw [hblocks] at hcons
  have htail : headerBytes (wrap P key block.data (peelOnion F key o).header.dropLast
      (peelOnion F key o).forward).1.tail = headerBytes rest := by
    rw [headerBytes, List.map_tail, ← headerBytes, hcons, List.tail_cons]
  have hinput : macInput block.data (wrap P key block.data (peelOnion F key o).header.dropLast
      (peelOnion F key o).forward).1.tail o.forward = macInput block.data rest o.forward := by
    rw [macInput, macInput, htail]
  rw [hcons, wrapBlock, hforward, hinput, htag]

/-- The blocks of an unwrapped onion are raw, so their bytes determine them. -/
theorem header_peelOnion_inj {o o' : Onion P} {key key' : P.SymmetricKey}
    (hcount : o.header.length = F.pathLimit) (hcount' : o'.header.length = F.pathLimit)
    (hpos : 0 < F.pathLimit)
    (h : headerBytes (peelOnion F key o).header = headerBytes (peelOnion F key' o').header) :
    (peelOnion F key o).header = (peelOnion F key' o').header := by
  rw [peelOnion_of_shape key hpos hcount, peelOnion_of_shape key' hpos hcount'] at h ⊢
  have hblocks : (peelFront F key (front o)).blocks = (peelFront F key' (front o')).blocks := by
    have hraw := h
    rw [Front.onion, Front.onion] at hraw
    simpa only [headerBytes_map_raw] using hraw
  exact congrArg (List.map Header.raw) hblocks

/-- **Wrapping again undoes unwrapping**, up to bytes behind the first block.  For an accepted
onion of `max_path_length` blocks, `wrap` returns the received forward section and the received
blocks, except that its first block is the encoding of the received tag and data, with which the
received first block begins.  In particular two accepted onions that unwrap to the same key,
header and forward section from the same encrypted meta-information differ at most in what
follows that encoding in the first block.  SRC: src/lib.rs:71-122, 386-414, 545-575 -/
theorem wrap_unwrap (hP : P.Lawful) (hw : P.tagCodec.FixedWidth w) (F : OnionFormat P)
    (sk : P.PrivateKey) (o n : Onion P) (key : P.SymmetricKey) (hopMeta : Meta)
    (hcount : o.header.length = F.pathLimit)
    (haccept : F.unwrap sk o = .ok (key, hopMeta, n)) :
    ∃ first rest block extra, o.header = first :: rest ∧ first.intoParsed = .ok block ∧
      first.intoBytes = block.pack ++ extra ∧
      headerBytes (wrap P key block.data n.header.dropLast n.forward).1 =
        block.pack :: headerBytes rest ∧
      (wrap P key block.data n.header.dropLast n.forward).2 = o.forward ∧
      ∀ o' n' hopMeta' first' rest' block', o'.header = first' :: rest' →
        o'.header.length = F.pathLimit → first'.intoParsed = .ok block' →
        F.unwrap sk o' = .ok (key, hopMeta', n') → block'.data = block.data →
        headerBytes n'.header = headerBytes n.header → n'.forward = n.forward →
        headerBytes rest' = headerBytes rest ∧ o'.forward = o.forward ∧
          ∃ extra', first'.intoBytes = block.pack ++ extra' := by
  obtain ⟨⟨block, ⟨first, rest, -, hheader, hparse, -, -⟩, -⟩, -, hn⟩ :=
    authentic_of_unwrap hw haccept
  obtain ⟨extra, hextra⟩ := intoBytes_of_intoParsed hparse
  obtain ⟨hblocks, hforward⟩ := wrap_peeled hP hw hheader hparse hcount haccept
  refine ⟨first, rest, block, extra, hheader, hparse, hextra, hblocks, hforward, ?_⟩
  intro o' n' hopMeta' first' rest' block' hheader' hcount' hparse' haccept' hdata hsame hsection
  obtain ⟨hblocks', hforward'⟩ := wrap_peeled hP hw hheader' hparse' hcount' haccept'
  obtain ⟨extra', hextra'⟩ := intoBytes_of_intoParsed hparse'
  obtain ⟨-, -, hn'⟩ := authentic_of_unwrap hw haccept'
  have hpos : 0 < F.pathLimit := by
    rw [← hcount, hheader]
    exact Nat.succ_pos _
  have hheaders : n'.header = n.header := by
    rw [hn, hn'] at hsame ⊢
    exact header_peelOnion_inj hcount' hcount hpos hsame
  rw [hdata, hheaders, hsection, hblocks] at hblocks'
  rw [hdata, hheaders, hsection, hforward] at hforward'
  obtain ⟨hpack, hrest⟩ := List.cons.inj hblocks'
  exact ⟨hrest.symm, hforward'.symm, extra', by rw [hextra', hpack]⟩

/-- Wrapping again does not restore bytes that were appended to the first block.
SRC: src/lib.rs:78-80, 409-412 -/
theorem wrap_append_first_ne (hP : P.Lawful) (hw : P.tagCodec.FixedWidth w) {sk : P.PrivateKey}
    {o n : Onion P} {first : Header P} {rest : List (Header P)} {block : HeaderBlock P}
    {key : P.SymmetricKey} {hopMeta : Meta} (hheader : o.header = first :: rest)
    (hparse : first.intoParsed = .ok block) (hcount : o.header.length = F.pathLimit)
    (haccept : F.unwrap sk o = .ok (key, hopMeta, n)) {extra : Bytes} (hextra : extra ≠ []) :
    headerBytes (wrap P key block.data n.header.dropLast n.forward).1 ≠
      headerBytes (appendFirst o extra).header := by
  obtain ⟨extra', hbytes⟩ := intoBytes_of_intoParsed hparse
  rw [(wrap_peeled hP hw hheader hparse hcount haccept).1, appendFirst_header hheader,
    headerBytes_cons, Header.intoBytes_raw, hbytes]
  intro heq
  have hlen := congrArg List.length (List.cons.inj heq).1
  have hpos := List.length_pos_of_ne_nil hextra
  rw [List.length_append, List.length_append] at hlen
  omega

/-- The sender's onion of two blocks and the same onion with a zero byte behind its first block
unwrap to the same; wrapping gives back the former.  SRC: src/lib.rs:78-80, 551-573 -/
theorem wrap_unwrap_fails : ∃ (o o' n : Onion samplePrimitives)
    (key : samplePrimitives.SymmetricKey) (hopMeta : Meta) (first : Header samplePrimitives)
    (rest : List (Header samplePrimitives)) (block : HeaderBlock samplePrimitives),
      o.header.length = (sampleFormat 2).pathLimit ∧
      (sampleFormat 2).unwrap (samplePrivateKey (sampleAddress 7)) o = .ok (key, hopMeta, n) ∧
      o.header = first :: rest ∧ first.intoParsed = .ok block ∧
      headerBytes (wrap samplePrimitives key block.data n.header.dropLast n.forward).1 ≠
        headerBytes o.header ∧
      o'.header.length = (sampleFormat 2).pathLimit ∧
      (sampleFormat 2).unwrap (samplePrivateKey (sampleAddress 7)) o' = .ok (key, hopMeta, n) ∧
      headerBytes o'.header ≠ headerBytes o.header := by
  have hw : samplePrimitives.tagCodec.FixedWidth 16 := Codec.array_fixedWidth 16
  obtain ⟨n, hn⟩ := unwrap_sampleSenderOnion 1 1 ([], samplePrimitives.defaultTag)
  obtain ⟨⟨block, ⟨first, rest, -, hheader, hparse, -, -⟩, -⟩, -, -⟩ := authentic_of_unwrap hw hn
  have hcount : (sampleSenderOnion 1 1 ([], samplePrimitives.defaultTag)).header.length =
      (sampleFormat 2).pathLimit := rfl
  have hheader' := appendFirst_header hheader [0]
  have hne := wrap_append_first_ne samplePrimitives_lawful hw hheader hparse hcount hn
    (List.cons_ne_nil (0 : UInt8) [])
  refine ⟨_, _, n, _, _, _, rest, block, ?_, unwrap_append_first hw hcount hn [0], hheader',
    intoParsed_append hparse [0], hne, hcount, hn, ?_⟩
  · rw [← hcount, hheader', hheader, List.length_cons, List.length_cons]
  · rw [hheader', hheader, headerBytes_cons, headerBytes_cons]
    intro heq
    have hfirst := congrArg List.length (List.cons.inj heq).1
    rw [Header.intoBytes_raw, List.length_append, List.length_singleton] at hfirst
    omega

/-- The sender's onion of two blocks is what wrapping it again gives. -/
theorem wrap_unwrap_sample : ∃ (o n : Onion samplePrimitives) (key : samplePrimitives.SymmetricKey)
    (data : Bytes), (sampleFormat 2).unwrap (samplePrivateKey (sampleAddress 7)) o =
        .ok (key, OnionFormat.metaBackward 1 1, n) ∧
      (headerBytes (wrap samplePrimitives key data n.header.dropLast n.forward).1).tail =
        (headerBytes o.header).tail := by
  obtain ⟨n, hn⟩ := unwrap_sampleSenderOnion 1 1 ([], samplePrimitives.defaultTag)
  obtain ⟨first, rest, block, -, hheader, -, -, hblocks, -⟩ := wrap_unwrap samplePrimitives_lawful
    (Codec.array_fixedWidth 16) (sampleFormat 2) _ _ n _ _ rfl hn
  refine ⟨_, n, _, block.data, hn, ?_⟩
  rw [hblocks, hheader, headerBytes_cons, List.tail_cons, List.tail_cons]

end Eror.Analysis
