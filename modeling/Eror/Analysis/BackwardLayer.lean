import Eror.Interface.Assumptions
import Eror.Library.Layers

/-!
# The algebra of the backward section

`ae_unwrap` and `ae_wrap` pass tag and ciphertext through the cipher as one buffer
(`joinTag`).  When every tag takes the same number of bytes, joining is injective and the
split at the end never fails, so both are total (`aeUnwrap_eq`, `aeWrap_eq`) and inherit from
the ciphers that they undo each other (`coverBackward_peelBackward`,
`peelBackward_coverBackward`).

`aeDec_eq_some_iff` says what the innermost layer accepts: exactly the sections that
`ae_enc` produces.
-/

set_option autoImplicit false

namespace Eror.Analysis

open Library Model

variable {R : Type} {P : Primitives R} {w : ℕ}

/-- The buffer that tag and ciphertext form. -/
def joinTag (b : Backward P) : Bytes := P.tagCodec.encode b.2 ++ b.1

/-- Tag and ciphertext can be told apart in the joined buffer. -/
theorem joinTag_injective (hw : P.tagCodec.FixedWidth w) :
    Function.Injective (joinTag (P := P)) := by
  intro b b' h
  obtain ⟨htag, hrest⟩ := P.tagCodec.encode_append_inj (hw.fits _) (hw.fits _) h
  exact Prod.ext hrest htag

/-- One layer of the backward section: the buffer through `cipher`, split where the tag ends. -/
def layerBackward (P : Primitives R) (cipher : P.SymmetricKey → UInt32 → Bytes → Bytes)
    (key : P.SymmetricKey) (b : Backward P) : Backward P :=
  let buffer := cipher (P.deriveKey .symEnc key) nonceBwd (joinTag b)
  let tagLen := (P.tagCodec.encode b.2).length
  (buffer.drop tagLen, (P.tagCodec.deserialize (buffer.take tagLen)).getD P.defaultTag)

/-- Take a layer off the backward section. -/
def peelBackward (P : Primitives R) : P.SymmetricKey → Backward P → Backward P :=
  layerBackward P P.symmetricDecrypt

/-- Put a layer on the backward section. -/
def coverBackward (P : Primitives R) : P.SymmetricKey → Backward P → Backward P :=
  layerBackward P P.symmetricEncrypt

section Layer

variable {cipher : P.SymmetricKey → UInt32 → Bytes → Bytes}

/-- INTERNAL: **one layer.**  The split never fails, and the buffer of the result is the
buffer of the input through the cipher.
SRC: src/lib.rs:364-369 -/
theorem aeLayer_spec (hw : P.tagCodec.FixedWidth w)
    (hlen : ∀ k n d, (cipher k n d).length = d.length) (key : P.SymmetricKey) (b : Backward P) :
    aeLayer P cipher key b = .ok (layerBackward P cipher key b) ∧
      joinTag (layerBackward P cipher key b) =
        cipher (P.deriveKey .symEnc key) nonceBwd (joinTag b) := by
  have htake : ((cipher (P.deriveKey .symEnc key) nonceBwd (joinTag b)).take
      (P.tagCodec.encode b.2).length).length = w := by
    rw [List.length_take, hlen, joinTag, List.length_append, hw.length]
    omega
  obtain ⟨t, ht, henc⟩ := hw.exists_encode _ htake
  refine ⟨?_, ?_⟩
  · unfold aeLayer layerBackward
    dsimp only
    rw [← joinTag, ht]
    rfl
  · unfold layerBackward
    dsimp only
    rw [ht, Option.getD_some]
    change P.tagCodec.encode t ++ List.drop _ _ = _
    rw [henc, List.take_append_drop]

/-- A layer keeps the length of the ciphertext. -/
theorem layerBackward_length (hlen : ∀ k n d, (cipher k n d).length = d.length)
    (key : P.SymmetricKey) (b : Backward P) :
    (layerBackward P cipher key b).1.length = b.1.length := by
  unfold layerBackward
  dsimp only
  rw [List.length_drop, hlen, joinTag, List.length_append]
  omega

/-- A cipher that undoes another one undoes its layers. -/
theorem layerBackward_cancel {decipher : P.SymmetricKey → UInt32 → Bytes → Bytes}
    (hw : P.tagCodec.FixedWidth w) (hlen : ∀ k n d, (cipher k n d).length = d.length)
    (hlen' : ∀ k n d, (decipher k n d).length = d.length)
    (h : ∀ k n d, decipher k n (cipher k n d) = d) (key : P.SymmetricKey) (b : Backward P) :
    layerBackward P decipher key (layerBackward P cipher key b) = b := by
  apply joinTag_injective hw
  rw [(aeLayer_spec hw hlen' key _).2, (aeLayer_spec hw hlen key b).2, h]

end Layer

/-- Taking a layer off does not fail.  SRC: src/lib.rs:358-370 -/
theorem aeUnwrap_eq (hw : P.tagCodec.FixedWidth w) (key : P.SymmetricKey) (b : Backward P) :
    aeUnwrap P key b = .ok (peelBackward P key b) :=
  (aeLayer_spec hw P.symmetricDecrypt_length key b).1

/-- Putting a layer on does not fail.  SRC: src/lib.rs:372-384 -/
theorem aeWrap_eq (hw : P.tagCodec.FixedWidth w) (key : P.SymmetricKey) (b : Backward P) :
    aeWrap P key b = .ok (coverBackward P key b) :=
  (aeLayer_spec hw P.symmetricEncrypt_length key b).1

/-- Taking a layer off keeps the length of the ciphertext. -/
theorem peelBackward_length (key : P.SymmetricKey) (b : Backward P) :
    (peelBackward P key b).1.length = b.1.length :=
  layerBackward_length P.symmetricDecrypt_length key b

/-- `ae_unwrap` undoes `ae_wrap`. -/
theorem peelBackward_coverBackward (hP : P.Lawful) (hw : P.tagCodec.FixedWidth w)
    (key : P.SymmetricKey) (b : Backward P) : peelBackward P key (coverBackward P key b) = b :=
  layerBackward_cancel hw P.symmetricEncrypt_length P.symmetricDecrypt_length
    hP.symmetricDecrypt_symmetricEncrypt key b

/-- `ae_wrap` undoes `ae_unwrap`. -/
theorem coverBackward_peelBackward (hP : P.Lawful) (hw : P.tagCodec.FixedWidth w)
    (key : P.SymmetricKey) (b : Backward P) : coverBackward P key (peelBackward P key b) = b :=
  layerBackward_cancel hw P.symmetricDecrypt_length P.symmetricEncrypt_length
    hP.symmetricEncrypt_symmetricDecrypt key b

/-- Neither does taking off the layers of several keys.  SRC: src/lib.rs:497-500 -/
theorem foldlM_aeUnwrap (hw : P.tagCodec.FixedWidth w) (keys : List P.SymmetricKey)
    (b : Backward P) : keys.foldlM (fun b key => aeUnwrap P key b) b =
      .ok (peelAll (peelBackward P) keys b) := by
  induction keys generalizing b with
  | nil => rfl
  | cons key keys ih => rw [List.foldlM_cons, aeUnwrap_eq hw, ok_bind, ih, peelAll_cons]

/-! ## The innermost layer -/

/-- The ciphertext is as long as the payload. -/
theorem aeEnc_length (key : P.SymmetricKey) (ad : P.Tag) (payload : Bytes) :
    (aeEnc P key ad payload).1.length = payload.length :=
  P.symmetricEncrypt_length ..

/-- `ae_dec` accepts exactly what `ae_enc` produces, and returns what it was given.
SRC: src/lib.rs:326-356 -/
theorem aeDec_eq_some_iff (hP : P.Lawful) (key : P.SymmetricKey) (ad : P.Tag) (b : Backward P)
    (payload : Bytes) : aeDec P key ad b = some payload ↔ aeEnc P key ad payload = b := by
  unfold aeDec aeEnc
  dsimp only
  constructor
  · intro h
    split at h
    · cases h
    · rename_i htag
      cases h
      rw [hP.symmetricEncrypt_symmetricDecrypt]
      exact Prod.ext rfl (not_not.mp htag)
  · rintro rfl
    rw [if_neg (not_not.mpr rfl), hP.symmetricDecrypt_symmetricEncrypt]

/-- With another tag the ciphertext is refused.  SRC: src/lib.rs:341-356 -/
theorem aeDec_aeEnc_of_ne (hP : P.Lawful) (hw : P.tagCodec.FixedWidth w) (key : P.SymmetricKey)
    {ad ad' : P.Tag} (h : ad ≠ ad') (payload : Bytes) :
    aeDec P key ad' (aeEnc P key ad payload) = none := by
  unfold aeDec aeEnc
  dsimp only
  rw [if_pos]
  intro hx
  apply h
  have henc : P.tagCodec.encode ad' = P.tagCodec.encode ad := by
    have hbytes := congrArg P.tagCodec.encode hx
    rw [hP.xorTag, hP.xorTag] at hbytes
    apply List.ext_getElem (by rw [hw.length, hw.length])
    intro i h₁ h₂
    have hi : i < (P.tagCodec.encode
        (P.tag (P.deriveKey .mac key) (P.symmetricEncrypt (P.deriveKey .symEnc key) nonceAe
          payload))).length := by
      rw [hw.length] at h₁ ⊢
      exact h₁
    have := List.getElem_of_eq hbytes (i := i) (by simp [hi, h₁])
    simpa using this
  exact (P.tagCodec.encode_inj (hw.fits _) (hw.fits _) henc).symm

end Eror.Analysis
