import Eror.Analysis.WrapLayer
import Eror.Interface.SamplePrimitives

/-!
# Onions with the wrong number of header blocks

`unwrap` indexes the header with the limit of the format and never compares the two.  On an
onion that is not authentic this does not matter, since the MAC comparison comes first.  An
authentic onion of fewer blocks ends in an index out of range, one of more blocks is
processed although only a part of its header is shifted, and the empty header panics before
anything is looked at.  `unwrap_wellBehaved_iff` is the exact condition.
-/

set_option autoImplicit false

namespace Eror.Analysis

open Library Model

variable {R : Type} {P : Primitives R} {w : ℕ}

/-- INTERNAL: an authentic onion is unwrapped or makes the call panic.
SRC: src/lib.rs:560-574 -/
theorem unwrap_of_authentic_cases {F : OnionFormat P} {sk : P.PrivateKey} {o : Onion P}
    {key : P.SymmetricKey} {hopMeta : Meta} (hw : P.tagCodec.FixedWidth w)
    (h : Authentic P sk o key hopMeta) :
    F.unwrap sk o = .ok (key, hopMeta, peelOnion F key o) ∨ F.unwrap sk o = .error .panic := by
  rcases Nat.lt_or_ge (rounds F) o.header.length with hlen | hlen
  · exact Or.inl (unwrap_of_authentic hw h hlen)
  · exact Or.inr (unwrap_of_authentic_of_short h hlen)

/-- `unwrap` does not panic and returns `Ok` on headers of exactly `max_path_length` blocks
only, if and only if the header is not empty and, when its first layer is authentic, has
`max_path_length` blocks.  SRC: src/lib.rs:545-575 -/
theorem unwrap_wellBehaved_iff (F : OnionFormat P) (sk : P.PrivateKey)
    (hw : P.tagCodec.FixedWidth w) (hdec : ∀ d, ∃ plain, P.asymmetricDecrypt sk d = .ok plain)
    (o : Onion P) :
    (F.unwrap sk o ≠ .error .panic ∧
        ∀ r, F.unwrap sk o = .ok r → o.header.length = F.pathLimit) ↔
      (o.header ≠ [] ∧
        ∀ key hopMeta, Authentic P sk o key hopMeta → o.header.length = F.pathLimit) := by
  constructor
  · rintro ⟨hpanic, hok⟩
    constructor
    · intro hnil
      exact hpanic (unwrap_of_nil hnil)
    · intro key hopMeta hauth
      rcases unwrap_of_authentic_cases (F := F) hw hauth with h | h
      · exact hok _ h
      · exact absurd h hpanic
  · rintro ⟨hne, hlen⟩
    constructor
    · exact unwrap_noPanic hw (fun block _ => hdec block.data) hne hlen
    · rintro ⟨key, hopMeta, o'⟩ hok
      obtain ⟨hauth, -⟩ := authentic_of_unwrap hw hok
      exact hlen _ _ hauth

/-- An onion that someone made for the node at the address seven, with some further blocks. -/
def sampleForged (headers : List (Header samplePrimitives)) : Onion samplePrimitives :=
  forge samplePrimitives 0 (samplePrivateKey (sampleAddress 7)) (List.Vector.replicate 16 9)
    ⟨.hop, sampleAddress 1⟩ headers [] ([], samplePrimitives.defaultTag)

/-- The first layer of the sample is authentic, whatever is behind it. -/
theorem authentic_sampleForged (headers : List (Header samplePrimitives)) :
    Authentic samplePrimitives (samplePrivateKey (sampleAddress 7)) (sampleForged headers)
      (List.Vector.replicate 16 9) ⟨.hop, sampleAddress 1⟩ :=
  authentic_forge samplePrimitives_widths (samplePrimitives_isKeyPair 7) 0 _ _ headers [] _

/-- The sample has one block more than it was given. -/
theorem sampleForged_length (headers : List (Header samplePrimitives)) :
    (sampleForged headers).header.length = headers.length + 1 := wrapOnion_header_length ..

/-- An authentic onion of one block is treated well where the limit is one, and an authentic onion
of two blocks is not. -/
theorem unwrap_wellBehaved_iff_sample :
    ((sampleFormat 1).unwrap (samplePrivateKey (sampleAddress 7)) (sampleForged []) ≠
        .error .panic ∧
      ∀ r, (sampleFormat 1).unwrap (samplePrivateKey (sampleAddress 7)) (sampleForged []) = .ok r →
        (sampleForged []).header.length = (sampleFormat 1).pathLimit) ∧
    ¬ ((sampleFormat 1).unwrap (samplePrivateKey (sampleAddress 7)) (sampleForged [.raw []]) ≠
        .error .panic ∧
      ∀ r, (sampleFormat 1).unwrap (samplePrivateKey (sampleAddress 7)) (sampleForged [.raw []]) =
        .ok r → (sampleForged [.raw []]).header.length = (sampleFormat 1).pathLimit) := by
  have hiff := unwrap_wellBehaved_iff (sampleFormat 1) (samplePrivateKey (sampleAddress 7))
    (Codec.array_fixedWidth 16) (fun _ => ⟨_, rfl⟩)
  constructor
  · have hlen := sampleForged_length []
    exact (hiff _).mpr ⟨List.ne_nil_of_length_pos (by omega), fun _ _ _ => hlen⟩
  · intro h
    have hlen := ((hiff _).mp h).2 _ _ (authentic_sampleForged [.raw []])
    rw [sampleForged_length] at hlen
    exact absurd hlen (by decide)

/-- An onion without blocks comes out of 40 zero bytes and makes `unwrap` panic, and an onion
of two authentic blocks is unwrapped although the limit is one.  SRC: src/lib.rs:551, 560-569 -/
theorem unwrap_wellBehaved_fails :
    (∃ bs o, Onion.deserialize (P := samplePrimitives) bs = .ok o ∧ bs.length = 40 ∧
      (sampleFormat 1).unwrap (samplePrivateKey (sampleAddress 7)) o = .error .panic) ∧
    ∃ o : Onion samplePrimitives, o.header.length = 2 ∧
      ∃ r, (sampleFormat 1).unwrap (samplePrivateKey (sampleAddress 7)) o = .ok r := by
  refine ⟨⟨List.replicate 40 0, ⟨[], [], ([], List.Vector.replicate 16 0)⟩, rfl, rfl,
    unwrap_of_nil rfl⟩, ?_⟩
  have hlen : (sampleForged [.raw []]).header.length = 2 := sampleForged_length _
  have hr : rounds (sampleFormat 1) < (sampleForged [.raw []]).header.length := by
    rw [hlen, rounds_of_pos (by decide)]
    decide
  exact ⟨_, hlen, _, unwrap_of_authentic (Codec.array_fixedWidth 16) (authentic_sampleForged _) hr⟩

end Eror.Analysis
