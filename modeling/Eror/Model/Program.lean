import Eror.Model.Onionize

/-!
# Forming, answering and processing onions

The upper half of src/lib.rs: `form_onion`, `reply_onion`, `split_reply_header` and
`proc_onion`.

`proc_onion` at the original sender runs a loop whose length, and derives a key whose
index, come out of the onion.  `procOnionMetered` is the function with a meter beside it
that counts the calls of `ae_wrap` and the subtractions that underflow; `procOnion` is its
result, and in the `dev` profile a panic if anything underflowed.
-/

set_option autoImplicit false

namespace Eror.Model

open Library

variable {R : Type} {P : Primitives R}

/-- The list of reply blocks followed by the payload: `pack((headers, payload))`. -/
def replyCodec : Codec (List Bytes × Bytes) := Codec.bytes.list.pair Codec.bytes

/-! ## Metered computations -/

/-- What the loop and the counters of `proc_onion` do beside their result. -/
structure Meter where
  /-- Calls of `ae_wrap`. -/
  aeWraps : ℕ
  /-- Subtractions below zero, at which the `dev` profile panics. -/
  underflows : ℕ
  deriving DecidableEq, Repr

/-- A computation with a meter beside it, which is read off even when it faults. -/
abbrev Metered := ExceptT Fault (StateM Meter)

namespace Metered

/-- A part that does not touch the meter. -/
def lift {α : Type} (x : Exec α) : Metered α := fun m => (x, m)

/-- `a - b` on unsigned integers of `w` bits. -/
def sub (w a b : ℕ) : Metered ℕ := fun m =>
  (.ok (wrappingSub w a b), { m with underflows := m.underflows + underflow a b })

/-- One call of `ae_wrap`. -/
def aeWrap (key : P.SymmetricKey) (bwd : Backward P) : Metered (Backward P) := fun m =>
  (Model.aeWrap P key bwd, { m with aeWraps := m.aeWraps + 1 })

/-- What the computation ends in: in the `dev` profile the first subtraction below zero is the end
of it, whatever would have come behind. -/
def resultIn {α : Type} (p : Profile) (x : Metered α) : Exec α := do
  let r := x ⟨0, 0⟩
  p.check (r.2.underflows = 0)
  r.1

end Metered

namespace OnionFormat

variable (F : OnionFormat P)

/-- The header of the reply and the message, out of a decrypted forward section.
SRC: src/lib.rs:687-692 -/
def splitReplyHeader (_ : OnionFormat P) (data : Bytes) : Exec (List (Header P) × Bytes) := do
  let (headers, payload) ← orErr (replyCodec.deserialize data) .serializationError
  return (headers.map .raw, payload)

/-- The reply onion of a receiver, and the address that it goes to.  SRC: src/lib.rs:582-611 -/
def replyOnionIn (p : Profile) (privateKey : P.PrivateKey) (onion : Onion P) (payload : Bytes) :
    Exec (Onion P × Address) := do
  let payloadLength := onion.forward.length
  let (key, hopMeta, nextOnion) ← F.unwrapIn p privateKey onion
  if hopMeta.role ≠ .receiver then
    .error (.err .notTheReceiver)
  else do
    let (header, _) ← F.splitReplyHeader nextOnion.forward
    let newMessage := P.prng (P.deriveKey .prng key) (List.replicate payloadLength 0)
    let mu := nextOnion.backward.2
    return (⟨header, newMessage, aeEnc P key mu payload⟩, hopMeta.next)

@[inherit_doc replyOnionIn]
def replyOnion (privateKey : P.PrivateKey) (onion : Onion P) (payload : Bytes) :
    Exec (Onion P × Address) :=
  F.replyOnionIn .release privateKey onion payload

/-- The keys of the forward hops.  SRC: src/lib.rs:636-638 -/
def keysForward (P : Primitives R) (masterKey : P.SymmetricKey) (n : ℕ) : List P.SymmetricKey :=
  (List.range n).map fun i => P.deriveKey (.forward (UInt32.ofNat i)) masterKey

/-- The keys of the backward hops, the last of which is the sender itself.
SRC: src/lib.rs:640-643 -/
def keysBackward (P : Primitives R) (masterKey : P.SymmetricKey) (n : ℕ) : List P.SymmetricKey :=
  (List.range (n - 1)).map (fun i => P.deriveKey (.backward (UInt32.ofNat i)) masterKey) ++
    [masterKey]

/-- `meta_backward`: the two path lengths at the front of an otherwise zero address.
SRC: src/lib.rs:650-654 -/
def metaBackward (nForward nBackward : ℕ) : Meta where
  role := .sender
  next := ⟨(countersCodec.encode (nForward, nBackward) ++ List.replicate 16 0), by
    simp [countersCodec, addressLength]⟩

/-- Form an onion for a payload and the two paths, and what is to be expected in answer.
SRC: src/lib.rs:623-684 -/
def formOnion [Rng R] (hopsForward hopsBackward : List Address) (payload : Bytes) :
    Draw R (Onion P × ExpectedResponse P) := do
  if hopsForward.length > F.pathLimit ∨ hopsBackward.length > F.pathLimit then
    throw (.err .pathTooLong)
  else do
    let masterKey ← draw P.randomKey
    let keysFwd := keysForward P masterKey hopsForward.length
    -- `hops_backward.len() - 1`: an empty path underflows, or overflows the capacity of the list
    let _ ← (orPanic hopsBackward.getLast? : Exec _)
    let keysBwd := keysBackward P masterKey hopsBackward.length
    let lastKey ← (orPanic keysFwd.getLast? : Exec _)
    let keyPrng := P.deriveKey .prng lastKey
    let randomPayload :=
      P.prng keyPrng (List.replicate (F.totalHeaderLength + 8 + payload.length) 0)
    let (onionBackward1, onionBackwardN, _) ←
      F.onionize keysBwd hopsBackward (metaBackward hopsForward.length hopsBackward.length)
        (.backward randomPayload) 0
    let firstBackward ← (orPanic hopsBackward.head? : Exec _)
    let (onionForward1, onionForwardN, expectedTag) ←
      F.onionize keysFwd hopsForward ⟨.receiver, firstBackward⟩
        (.forward (replyCodec.encode (headerBytes onionBackward1.header, payload))) payload.length
    return (onionForward1, ⟨onionBackwardN.packedHeader, onionForwardN, expectedTag⟩)

/-- The branch of `procOnionMetered` for the original sender, whose `hopMeta.next` holds the
path lengths.  SRC: src/lib.rs:714-734 -/
def procSender (P : Primitives R) (masterKey : P.SymmetricKey) (next : Address)
    (expectedTag : Bytes → Option P.Tag) (onion : Onion P) : Metered (ProcessedOnion P) := do
  let (nForward, nBackward) ←
    Metered.lift (orErr (countersCodec.deserialize (next.toList.take 16)) .serializationError)
  let identifier := onion.packedHeader
  -- `for i in (0..n_backward - 1).rev()`
  let last ← Metered.sub 64 nBackward 1
  let bwd ← (List.range last).reverse.foldlM (fun bwd i =>
    Metered.aeWrap (P.deriveKey (.backward (UInt32.ofNat i)) masterKey) bwd) onion.backward
  -- `n_forward as u32 - 1`
  let index ← Metered.sub 32 (asU32 nForward) 1
  let keyForward := P.deriveKey (.forward (UInt32.ofNat index)) masterKey
  let exTag ← Metered.lift (orErr (expectedTag identifier) .unexpectedReply)
  let payload ← Metered.lift (orErr (aeDec P keyForward exTag bwd) .aeError)
  return .sender payload

/-- Unwrap the onion and do what the role in it says.  SRC: src/lib.rs:697-736 -/
def procOnionMeteredIn (p : Profile) (privateKey : P.PrivateKey)
    (expectedTag : Bytes → Option P.Tag) (onion : Onion P) : Metered (ProcessedOnion P) := do
  let (masterKey, hopMeta, nextOnion) ← Metered.lift (F.unwrapIn p privateKey onion)
  match hopMeta.role with
  | .hop => return .hop hopMeta.next nextOnion
  | .receiver => do
      let (_, message) ← Metered.lift (F.splitReplyHeader nextOnion.forward)
      return .receiver message
  | .sender => procSender P masterKey hopMeta.next expectedTag onion

@[inherit_doc procOnionMeteredIn]
def procOnionMetered (privateKey : P.PrivateKey) (expectedTag : Bytes → Option P.Tag)
    (onion : Onion P) : Metered (ProcessedOnion P) :=
  F.procOnionMeteredIn .release privateKey expectedTag onion

/-- The result of processing an onion.  SRC: src/lib.rs:697-736 -/
def procOnionIn (p : Profile) (privateKey : P.PrivateKey) (expectedTag : Bytes → Option P.Tag)
    (onion : Onion P) : Exec (ProcessedOnion P) :=
  (F.procOnionMeteredIn p privateKey expectedTag onion).resultIn p

@[inherit_doc procOnionIn]
def procOnion (privateKey : P.PrivateKey) (expectedTag : Bytes → Option P.Tag) (onion : Onion P) :
    Exec (ProcessedOnion P) :=
  F.procOnionIn .release privateKey expectedTag onion

/-- In the `release` profile the overflows that the meter counts are of no effect. -/
theorem procOnion_eq (privateKey : P.PrivateKey) (expectedTag : Bytes → Option P.Tag)
    (onion : Onion P) : F.procOnion privateKey expectedTag onion =
      (F.procOnionMetered privateKey expectedTag onion ⟨0, 0⟩).1 := by
  rw [procOnion, procOnionIn, Metered.resultIn, check_release_bind]
  rfl

/-- Processing without expected replies.  SRC: src/lib.rs:739-746 -/
def procOnionWithoutReply (privateKey : P.PrivateKey) (onion : Onion P) :
    Exec (ProcessedOnion P) :=
  F.procOnion privateKey (fun _ => none) onion

end OnionFormat

end Eror.Model
