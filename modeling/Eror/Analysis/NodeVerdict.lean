import Eror.Analysis.MauledCiphertext
import Eror.Analysis.Profiles
import Eror.Interface.Wire

/-!
# What becomes of any onion

A node of the network over `EcPrimitives` that receives an onion, whoever built it, does one of a
few things.  `Verdict` lists them with the condition for each, in terms of what the first block
holds and without the loops of `unwrap` and `proc_onion`; `node_verdict` says that the list is
right and complete, in both profiles.

Three of the conditions end in a panic however the code is compiled: an onion without blocks, a
first block with fewer than 40 bytes of data, and an authentic onion with fewer blocks than the
limit.  The first two need no key at all, so whoever can send bytes to a node can stop it.  In the
`dev` profile an authentic onion has two more ways to stop a node: a limit that overflows, which
is the node's own, and counters that do, which are the sender's.
-/

set_option autoImplicit false

namespace Eror.Analysis

open Library Model

section Openings

variable {R : Type} {P : Primitives R}

/-- `unwrap` gets through to its end: the onion is authentic and long enough to be shifted, and
the limit passes the checks if there are any. -/
structure Unwraps (p : Profile) (F : OnionFormat P) (sk : P.PrivateKey) (o : Onion P)
    (key : P.SymmetricKey) (hopMeta : Meta) : Prop where
  authentic : Authentic P sk o key hopMeta
  length : rounds F < o.header.length
  fits : p = .dev → LimitFits F

/-- The backward section at the sender, once the layers of the backward hops are on again.
SRC: src/lib.rs:718-723 -/
def rewrapped (P : Primitives R) (o : Onion P) (key : P.SymmetricKey) (hopMeta : Meta) :
    Backward P :=
  coverAll (coverBackward P) (layerKeys P key (wrappingSub 64 (counters hopMeta).2 1)) o.backward

/-- The reply that a receiver sends.  SRC: src/lib.rs:597-609 -/
def replyTo (F : OnionFormat P) (key : P.SymmetricKey) (o : Onion P) (header : List (Header P))
    (reply : Bytes) : Onion P :=
  ⟨header, P.prng (P.deriveKey .prng key) (List.replicate o.forward.length 0),
    aeEnc P key (peelOnion F key o).backward.2 reply⟩

/-- Nothing but an `Err` comes of a first block that does not parse.  SRC: src/lib.rs:551 -/
theorem unwrap_of_unreadable {F : OnionFormat P} {sk : P.PrivateKey} {o : Onion P}
    (hheader : o.header ≠ []) (hblock : ∀ block, ¬ FirstBlock o block) :
    F.unwrap sk o = .error (.err .serializationError) := by
  obtain ⟨first, rest, hh⟩ := List.exists_cons_of_ne_nil hheader
  have hfirst : o.header[0]? = some first := by rw [hh, List.getElem?_cons_zero]
  have hparse : first.intoParsed = .error (.err .serializationError) := by
    rw [Header.intoParsed_eq, HeaderBlock.unpack]
    cases hread : (HeaderBlock.codec P).deserialize first.intoBytes with
    | none => rfl
    | some block =>
        refine absurd ⟨first, rest, hh, ?_⟩ (hblock block)
        rw [Header.intoParsed_eq, HeaderBlock.unpack, hread, orErr_some]
  rw [unwrap_eq_shiftHeader, hfirst, orPanic_some, ok_bind, hparse, error_bind]

/-- A first block that decrypts without a panic, in an onion that is not authentic.
SRC: src/lib.rs:552-559 -/
theorem unwrap_of_forged {F : OnionFormat P} {sk : P.PrivateKey} {o : Onion P}
    {block : HeaderBlock P} (hblock : FirstBlock o block) {plain : Bytes}
    (hdec : P.asymmetricDecrypt sk block.data = .ok plain)
    (hforged : ∀ key hopMeta, ¬ Authentic P sk o key hopMeta) :
    F.unwrap sk o = .error (.err .macMismatch) := by
  obtain ⟨first, rest, hh, hb⟩ := hblock
  cases hread : (keyMetaCodec P).deserialize plain with
  | none =>
      have hfirst : o.header[0]? = some first := by rw [hh, List.getElem?_cons_zero]
      rw [unwrap_eq_shiftHeader, hfirst, orPanic_some, ok_bind, hb, ok_bind, hdec, ok_bind, hread,
        orErr_none, error_bind]
  | some r =>
      have hopen : Opens P sk o block r.1 r.2 := ⟨first, rest, plain, hh, hb, hdec, hread⟩
      rw [unwrap_of_opens hopen, if_pos]
      intro htag
      exact hforged r.1 r.2 ⟨block, hopen, htag⟩

/-- A payload without reply blocks in front is answered with an `Err`.  SRC: src/lib.rs:687-692 -/
theorem splitReplyHeader_error {F : OnionFormat P} {data : Bytes}
    (h : ∀ r, F.splitReplyHeader data ≠ .ok r) :
    F.splitReplyHeader data = .error (.err .serializationError) := by
  rw [OnionFormat.splitReplyHeader] at h ⊢
  cases hread : replyCodec.deserialize data with
  | none => rfl
  | some r =>
      rw [hread, orErr_some, ok_bind] at h
      exact absurd rfl (h _)

/-- Bytes that are no onion are answered with an `Err`.  SRC: src/lib.rs:205-218 -/
theorem deserialize_ne_panic (bs : Bytes) : Onion.deserialize (P := P) bs ≠ .error .panic := by
  intro h
  rw [Onion.deserialize] at h
  cases hread : (Onion.codec P).deserialize bs with
  | none => rw [hread] at h; cases h
  | some r => rw [hread] at h; cases h

end Openings

variable {R : Type} [Rng R] {C : EcCrates R}

/-- The answer of a node to an onion, by what the onion holds.
SRC: src/lib.rs:545-575, 582-611, 697-736 -/
inductive Verdict (p : Profile) (net : Network C.ecPrimitives) (fl : Flight C.ecPrimitives) :
    Exec (Event C.ecPrimitives) → Prop
  /-- `onion.header[0]` -/
  | noBlocks (hheader : fl.onion.header = []) : Verdict p net fl (.error .panic)
  | unreadable (hheader : fl.onion.header ≠ []) (hblock : ∀ block, ¬ FirstBlock fl.onion block) :
      Verdict p net fl (.error (.err .serializationError))
  /-- `&data[40..]` -/
  | shortData {block : HeaderBlock C.ecPrimitives} (hblock : FirstBlock fl.onion block)
      (hdata : block.data.length < 40) : Verdict p net fl (.error .panic)
  | forged {block : HeaderBlock C.ecPrimitives} (hblock : FirstBlock fl.onion block)
      (hdata : 40 ≤ block.data.length)
      (hforged : ∀ key hopMeta,
        ¬ Authentic C.ecPrimitives (net.privateKey fl.node) fl.onion key hopMeta) :
      Verdict p net fl (.error (.err .macMismatch))
  /-- `onion.header[i + 1]` -/
  | fewBlocks {key : C.ecPrimitives.SymmetricKey} {hopMeta : Meta}
      (hauth : Authentic C.ecPrimitives (net.privateKey fl.node) fl.onion key hopMeta)
      (hlen : fl.onion.header.length ≤ rounds net.format) : Verdict p net fl (.error .panic)
  /-- `self.max_path_length as usize - 1`, `self.max_path_length + 1` -/
  | limitOverflows {key : C.ecPrimitives.SymmetricKey} {hopMeta : Meta} (hdev : p = .dev)
      (hauth : Authentic C.ecPrimitives (net.privateKey fl.node) fl.onion key hopMeta)
      (hlimit : ¬ LimitFits net.format) : Verdict p net fl (.error .panic)
  | hop {key : C.ecPrimitives.SymmetricKey} {next : Address}
      (hopens : Unwraps p net.format (net.privateKey fl.node) fl.onion key ⟨.hop, next⟩) :
      Verdict p net fl (.ok ⟨fl, .hop next, some ⟨next, peelOnion net.format key fl.onion⟩⟩)
  | receiver {key : C.ecPrimitives.SymmetricKey} {next : Address}
      {header : List (Header C.ecPrimitives)} {message : Bytes}
      (hopens : Unwraps p net.format (net.privateKey fl.node) fl.onion key ⟨.receiver, next⟩)
      (hsplit : net.format.splitReplyHeader (peelOnion net.format key fl.onion).forward =
        .ok (header, message)) :
      Verdict p net fl (.ok ⟨fl, .receiver message next,
        some ⟨next, replyTo net.format key fl.onion header net.reply⟩⟩)
  | noReplyHeader {key : C.ecPrimitives.SymmetricKey} {next : Address}
      (hopens : Unwraps p net.format (net.privateKey fl.node) fl.onion key ⟨.receiver, next⟩)
      (hsplit : ∀ r, net.format.splitReplyHeader
        (peelOnion net.format key fl.onion).forward ≠ .ok r) :
      Verdict p net fl (.error (.err .serializationError))
  /-- `n_backward - 1`, `n_forward as u32 - 1` -/
  | counterUnderflows {key : C.ecPrimitives.SymmetricKey} {next : Address} (hdev : p = .dev)
      (hopens : Unwraps p net.format (net.privateKey fl.node) fl.onion key ⟨.sender, next⟩)
      (hcounters : ¬ CountersFit ⟨.sender, next⟩) : Verdict p net fl (.error .panic)
  | sender {key : C.ecPrimitives.SymmetricKey} {next : Address} {ex : C.ecPrimitives.Tag}
      {payload : Bytes}
      (hopens : Unwraps p net.format (net.privateKey fl.node) fl.onion key ⟨.sender, next⟩)
      (hcounters : p = .dev → CountersFit ⟨.sender, next⟩)
      (hlookup : net.expectedTag fl.onion.packedHeader = some ex)
      (hreply : aeDec C.ecPrimitives (replyKey C.ecPrimitives key (counters ⟨.sender, next⟩).1) ex
        (rewrapped C.ecPrimitives fl.onion key ⟨.sender, next⟩) = some payload) :
      Verdict p net fl (.ok ⟨fl, .sender payload, none⟩)
  | notExpected {key : C.ecPrimitives.SymmetricKey} {next : Address}
      (hopens : Unwraps p net.format (net.privateKey fl.node) fl.onion key ⟨.sender, next⟩)
      (hcounters : p = .dev → CountersFit ⟨.sender, next⟩)
      (hlookup : net.expectedTag fl.onion.packedHeader = none) :
      Verdict p net fl (.error (.err .unexpectedReply))
  | altered {key : C.ecPrimitives.SymmetricKey} {next : Address} {ex : C.ecPrimitives.Tag}
      (hopens : Unwraps p net.format (net.privateKey fl.node) fl.onion key ⟨.sender, next⟩)
      (hcounters : p = .dev → CountersFit ⟨.sender, next⟩)
      (hlookup : net.expectedTag fl.onion.packedHeader = some ex)
      (hreply : aeDec C.ecPrimitives (replyKey C.ecPrimitives key (counters ⟨.sender, next⟩).1) ex
        (rewrapped C.ecPrimitives fl.onion key ⟨.sender, next⟩) = none) :
      Verdict p net fl (.error (.err .aeError))

variable {p : Profile} {net : Network C.ecPrimitives} {fl : Flight C.ecPrimitives}

/-! ## Each verdict is what the node does -/

/-- What unwraps is peeled.  SRC: src/lib.rs:545-575 -/
theorem Unwraps.unwrapIn {F : OnionFormat C.ecPrimitives} {sk : C.Scalar}
    {o : Onion C.ecPrimitives} {key : C.ecPrimitives.SymmetricKey} {hopMeta : Meta}
    (h : Unwraps p F sk o key hopMeta) :
    F.unwrapIn p sk o = .ok (key, hopMeta, peelOnion F key o) :=
  (unwrapIn_of_fits h.fits).trans
    (unwrap_of_authentic (Codec.array_fixedWidth 16) h.authentic h.length)

/-- A node answers what `unwrap` answers.  SRC: src/lib.rs:704 -/
theorem nodeIn_of_error {fault : Fault}
    (h : net.format.unwrapIn p (net.privateKey fl.node) fl.onion = .error fault) :
    net.nodeIn p fl = .error fault := by
  rw [Network.nodeIn, procOnionIn_of_error h, error_bind]

/-- The same for an onion that is not authentic, on which the profiles agree. -/
theorem nodeIn_of_forged {fault : Fault}
    (hforged : ∀ key hopMeta,
      ¬ Authentic C.ecPrimitives (net.privateKey fl.node) fl.onion key hopMeta)
    (h : net.format.unwrap (net.privateKey fl.node) fl.onion = .error fault) :
    net.nodeIn p fl = .error fault :=
  nodeIn_of_error ((unwrapIn_of_not_authentic hforged).trans h)

/-- The sender's node reports the reply that it opens.  SRC: src/lib.rs:714-734 -/
theorem nodeIn_of_sender {key : C.ecPrimitives.SymmetricKey} {next : Address}
    (hopens : Unwraps p net.format (net.privateKey fl.node) fl.onion key ⟨.sender, next⟩)
    (hcounters : p = .dev → CountersFit ⟨.sender, next⟩) :
    net.nodeIn p fl = (openReply C.ecPrimitives
      (replyKey C.ecPrimitives key (counters ⟨.sender, next⟩).1)
      (net.expectedTag fl.onion.packedHeader)
      (rewrapped C.ecPrimitives fl.onion key ⟨.sender, next⟩)).map
        fun payload => ⟨fl, .sender payload, none⟩ := by
  rw [Network.nodeIn,
    procOnionIn_of_sender (Codec.array_fixedWidth 16) hopens.unwrapIn rfl hcounters, rewrapped]
  cases openReply C.ecPrimitives (replyKey C.ecPrimitives key (counters ⟨.sender, next⟩).1)
    (net.expectedTag fl.onion.packedHeader) (coverAll (coverBackward C.ecPrimitives)
      (layerKeys C.ecPrimitives key (wrappingSub 64 (counters ⟨.sender, next⟩).2 1))
      fl.onion.backward) <;> rfl

/-- Only an onion with a first block is authentic.  SRC: src/lib.rs:551 -/
theorem Authentic.firstBlock {sk : C.Scalar} {o : Onion C.ecPrimitives}
    {key : C.ecPrimitives.SymmetricKey} {hopMeta : Meta}
    (h : Authentic C.ecPrimitives sk o key hopMeta) :
    ∃ block plain, FirstBlock o block ∧ C.asymmetricDecrypt sk block.data = .ok plain := by
  obtain ⟨block, ⟨first, rest, plain, hh, hb, hd, -⟩, -⟩ := h
  exact ⟨block, plain, ⟨first, rest, hh, hb⟩, hd⟩

/-- An onion has one first block. -/
theorem FirstBlock.unique {o : Onion C.ecPrimitives} {block block' : HeaderBlock C.ecPrimitives}
    (h : FirstBlock o block) (h' : FirstBlock o block') : block = block' := by
  obtain ⟨first, rest, hh, hb⟩ := h
  obtain ⟨first', rest', hh', hb'⟩ := h'
  rw [hh] at hh'
  obtain ⟨rfl, -⟩ := List.cons.inj hh'
  exact Except.ok.inj (hb.symm.trans hb')

/-- An onion whose first block cannot be decrypted is not authentic.  SRC: src/lib.rs:552 -/
theorem not_authentic_of_short {sk : C.Scalar} {o : Onion C.ecPrimitives}
    {block : HeaderBlock C.ecPrimitives} (hblock : FirstBlock o block)
    (hdata : block.data.length < 40) (key : C.ecPrimitives.SymmetricKey) (hopMeta : Meta) :
    ¬ Authentic C.ecPrimitives sk o key hopMeta := by
  intro hauth
  obtain ⟨block', plain, hblock', hdec⟩ := hauth.firstBlock
  obtain rfl := hblock.unique hblock'
  rw [asymmetricDecrypt_of_short sk hdata] at hdec
  cases hdec

/-- INTERNAL: a node does what the verdict says.  SRC: src/lib.rs:545-575, 582-611, 697-736 -/
theorem Verdict.nodeIn {r : Exec (Event C.ecPrimitives)} (h : Verdict p net fl r) :
    net.nodeIn p fl = r := by
  cases h with
  | noBlocks hheader =>
      refine nodeIn_of_forged (fun key hopMeta hauth => ?_) (unwrap_of_nil hheader)
      obtain ⟨-, -, ⟨first, rest, hh, -⟩, -⟩ := hauth.firstBlock
      rw [hheader] at hh
      cases hh
  | unreadable hheader hblock =>
      refine nodeIn_of_forged (fun key hopMeta hauth => ?_)
        (unwrap_of_unreadable hheader hblock)
      obtain ⟨block, -, hfirst, -⟩ := hauth.firstBlock
      exact hblock block hfirst
  | shortData hblock hdata =>
      exact nodeIn_of_forged (not_authentic_of_short hblock hdata)
        (unwrap_of_decrypt_error hblock (asymmetricDecrypt_of_short _ hdata))
  | forged hblock hdata hforged =>
      obtain ⟨plain, hdec, -⟩ := asymmetricDecrypt_of_length (net.privateKey fl.node) hdata
      exact nodeIn_of_forged hforged (unwrap_of_forged hblock hdec hforged)
  | fewBlocks hauth hlen => exact nodeIn_of_error (unwrapIn_of_authentic_of_short hauth hlen)
  | limitOverflows hdev hauth hlimit =>
      subst hdev
      exact nodeIn_of_error (unwrapIn_dev_of_authentic hauth hlimit)
  | hop hopens =>
      rw [Network.nodeIn, procOnionIn_of_hop hopens.unwrapIn rfl]
      rfl
  | receiver hopens hsplit =>
      rw [Network.nodeIn, procOnionIn_of_receiver hopens.unwrapIn rfl, hsplit, ok_bind]
      dsimp only
      change (net.format.replyOnionIn p _ fl.onion net.reply >>= fun r => _) = _
      rw [replyOnionIn_of_receiver hopens.unwrapIn rfl, hsplit, ok_bind]
      rfl
  | noReplyHeader hopens hsplit =>
      rw [Network.nodeIn, procOnionIn_of_receiver hopens.unwrapIn rfl,
        splitReplyHeader_error hsplit]
      rfl
  | counterUnderflows hdev hopens hcounters =>
      subst hdev
      rw [Network.nodeIn, procOnionIn_dev_of_sender (Codec.array_fixedWidth 16) hopens.unwrapIn rfl
        hcounters, error_bind]
  | sender hopens hcounters hlookup hreply =>
      rw [nodeIn_of_sender hopens hcounters, openReply, hlookup, orErr_some, ok_bind, hreply,
        orErr_some]
      rfl
  | notExpected hopens hcounters hlookup =>
      rw [nodeIn_of_sender hopens hcounters, openReply, hlookup, orErr_none, error_bind]
      rfl
  | altered hopens hcounters hlookup hreply =>
      rw [nodeIn_of_sender hopens hcounters, openReply, hlookup, orErr_some, ok_bind, hreply,
        orErr_none]
      rfl

/-! ## The list is complete -/

/-- INTERNAL: what is behind an onion that unwraps, role by role.  SRC: src/lib.rs:706-734 -/
theorem exists_verdict_of_unwraps {key : C.ecPrimitives.SymmetricKey} {hopMeta : Meta}
    (hopens : Unwraps p net.format (net.privateKey fl.node) fl.onion key hopMeta) :
    ∃ r, Verdict p net fl r := by
  obtain ⟨role, next⟩ := hopMeta
  cases role with
  | hop => exact ⟨_, .hop hopens⟩
  | receiver =>
      by_cases hsplit : ∃ r, net.format.splitReplyHeader
          (peelOnion net.format key fl.onion).forward = .ok r
      · obtain ⟨⟨header, message⟩, hsplit⟩ := hsplit
        exact ⟨_, .receiver hopens hsplit⟩
      · exact ⟨_, .noReplyHeader hopens fun r hr => hsplit ⟨r, hr⟩⟩
  | sender =>
      by_cases hcounters : p = .dev → CountersFit ⟨.sender, next⟩
      · cases hlookup : net.expectedTag fl.onion.packedHeader with
        | none => exact ⟨_, .notExpected hopens hcounters hlookup⟩
        | some ex =>
            cases hreply : aeDec C.ecPrimitives
                (replyKey C.ecPrimitives key (counters ⟨.sender, next⟩).1) ex
                (rewrapped C.ecPrimitives fl.onion key ⟨.sender, next⟩) with
            | none => exact ⟨_, .altered hopens hcounters hlookup hreply⟩
            | some payload => exact ⟨_, .sender hopens hcounters hlookup hreply⟩
      · obtain ⟨hdev, hunderflow⟩ := Classical.not_imp.mp hcounters
        exact ⟨_, .counterUnderflows hdev hopens hunderflow⟩

/-- INTERNAL: there is a verdict for every onion. -/
theorem exists_verdict (p : Profile) (net : Network C.ecPrimitives) (fl : Flight C.ecPrimitives) :
    ∃ r, Verdict p net fl r := by
  by_cases hheader : fl.onion.header = []
  · exact ⟨_, .noBlocks hheader⟩
  by_cases hfirst : ∃ block, FirstBlock fl.onion block
  · obtain ⟨block, hblock⟩ := hfirst
    by_cases hauth : ∃ key hopMeta,
        Authentic C.ecPrimitives (net.privateKey fl.node) fl.onion key hopMeta
    · obtain ⟨key, hopMeta, hauth⟩ := hauth
      by_cases hfits : p = .dev → LimitFits net.format
      · by_cases hlen : rounds net.format < fl.onion.header.length
        · exact exists_verdict_of_unwraps ⟨hauth, hlen, hfits⟩
        · exact ⟨_, .fewBlocks hauth (not_lt.mp hlen)⟩
      · obtain ⟨hdev, hlimit⟩ := Classical.not_imp.mp hfits
        exact ⟨_, .limitOverflows hdev hauth hlimit⟩
    · by_cases hdata : block.data.length < 40
      · exact ⟨_, .shortData hblock hdata⟩
      · exact ⟨_, .forged hblock (not_lt.mp hdata) fun key hopMeta h => hauth ⟨key, hopMeta, h⟩⟩
  · exact ⟨_, .unreadable hheader fun block h => hfirst ⟨block, h⟩⟩

/-- The onions that a node panics on, the last two in the `dev` profile only.
SRC: src/lib.rs:551-552, 560-567, 720-724, src/primitives.rs:252-253 -/
inductive Crashes (p : Profile) (F : OnionFormat C.ecPrimitives) (sk : C.ecPrimitives.PrivateKey)
    (o : Onion C.ecPrimitives) : Prop
  | noBlocks (hheader : o.header = [])
  | shortData (block : HeaderBlock C.ecPrimitives) (hblock : FirstBlock o block)
      (hdata : block.data.length < 40)
  | fewBlocks (key : C.ecPrimitives.SymmetricKey) (hopMeta : Meta)
      (hauth : Authentic C.ecPrimitives sk o key hopMeta) (hlen : o.header.length ≤ rounds F)
  | limitOverflows (key : C.ecPrimitives.SymmetricKey) (hopMeta : Meta) (hdev : p = .dev)
      (hauth : Authentic C.ecPrimitives sk o key hopMeta) (hlimit : ¬ LimitFits F)
  | counterUnderflows (key : C.ecPrimitives.SymmetricKey) (next : Address) (hdev : p = .dev)
      (hauth : Authentic C.ecPrimitives sk o key ⟨.sender, next⟩)
      (hcounters : ¬ CountersFit ⟨.sender, next⟩)

/-- The verdicts that are a panic.  SRC: src/lib.rs:551-552, 560-567, 720-724 -/
theorem verdict_panic_iff : Verdict p net fl (.error .panic) ↔
    Crashes p net.format (net.privateKey fl.node) fl.onion := by
  constructor
  · intro h
    cases h with
    | noBlocks hheader => exact .noBlocks hheader
    | shortData hblock hdata => exact .shortData _ hblock hdata
    | fewBlocks hauth hlen => exact .fewBlocks _ _ hauth hlen
    | limitOverflows hdev hauth hlimit => exact .limitOverflows _ _ hdev hauth hlimit
    | counterUnderflows hdev hopens hcounters =>
        exact .counterUnderflows _ _ hdev hopens.authentic hcounters
  · intro h
    cases h with
    | noBlocks hheader => exact .noBlocks hheader
    | shortData block hblock hdata => exact .shortData hblock hdata
    | fewBlocks key hopMeta hauth hlen => exact .fewBlocks hauth hlen
    | limitOverflows key hopMeta hdev hauth hlimit => exact .limitOverflows hdev hauth hlimit
    | counterUnderflows key next hdev hauth hcounters =>
        -- an overflow of the limit or a missing block would have come before
        by_cases hlen : rounds net.format < fl.onion.header.length
        · by_cases hlimit : LimitFits net.format
          · exact .counterUnderflows hdev ⟨hauth, hlen, fun _ => hlimit⟩ hcounters
          · exact .limitOverflows hdev hauth hlimit
        · exact .fewBlocks hauth (not_lt.mp hlen)

/-- The list of verdicts is complete. -/
theorem nodeIn_eq_iff_verdict {r : Exec (Event C.ecPrimitives)} :
    net.nodeIn p fl = r ↔ Verdict p net fl r := by
  constructor
  · rintro rfl
    obtain ⟨r, hr⟩ := exists_verdict p net fl
    rwa [hr.nodeIn]
  · exact Verdict.nodeIn

/-- When a node panics.  SRC: src/lib.rs:551-552, 560-567, 720-724 -/
theorem nodeIn_panic_iff : net.nodeIn p fl = .error .panic ↔
    Crashes p net.format (net.privateKey fl.node) fl.onion :=
  nodeIn_eq_iff_verdict.trans verdict_panic_iff

/-- **What a node does with any onion, and which bytes stop it.**  A node answers an onion,
whoever built it, exactly as `Verdict` says; so on bytes from the wire it panics exactly when they
are read as an onion that has no blocks, or a first block with fewer than 40 bytes of data, or is
authentic and has fewer blocks than the limit; in the `dev` profile also when it is authentic and
the limit overflows, or the sender's counters underflow.
SRC: src/lib.rs:189-218, 545-575, 582-611, 697-736, src/primitives.rs:238-258 -/
theorem node_verdict (p : Profile) (net : Network C.ecPrimitives) :
    (∀ (fl : Flight C.ecPrimitives) (r : Exec (Event C.ecPrimitives)),
      net.nodeIn p fl = r ↔ Verdict p net fl r) ∧
    ∀ packet : Packet, net.wireNodeIn p packet = .error .panic ↔
      ∃ o, Onion.deserialize packet.bytes = .ok o ∧
        Crashes p net.format (net.privateKey packet.node) o := by
  refine ⟨fun fl r => nodeIn_eq_iff_verdict, ?_⟩
  intro packet
  rw [Network.wireNodeIn, bind_eq_fault_iff]
  constructor
  · rintro (hread | ⟨o, hread, hnode⟩)
    · exact absurd hread (deserialize_ne_panic packet.bytes)
    · rcases bind_eq_fault_iff.mp hnode with hpanic | ⟨e, -, h⟩
      · exact ⟨o, hread, nodeIn_panic_iff.mp hpanic⟩
      · cases h
  · rintro ⟨o, hread, hcrash⟩
    exact .inr ⟨o, hread, bind_eq_fault_iff.mpr (.inl (nodeIn_panic_iff.mpr hcrash))⟩

end Eror.Analysis
