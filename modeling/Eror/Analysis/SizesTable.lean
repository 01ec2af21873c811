import Eror.Analysis.CreateOnionRun
import Eror.Analysis.PublicKeyEncryption
import Eror.Analysis.SphinxDelivery
import Eror.Analysis.UniformSize
import Eror.Model.OnionSizes

/-!
# The table of onion sizes

`form_onion` returns on any two paths within the limit whose hops are in the key store, and what
it returns has the uniform size (`formOnion_uniform`).  The addresses that the program collects
are those in its key store (`insertKeys_collected`), so all that decides whether a line is printed
is how many different addresses were drawn, and the numbers in the line are linear in the length of
the path and of the payload (`onionSizes_prints`).
-/

set_option autoImplicit false

namespace Eror.Analysis

open Library Model

variable {R : Type} [Rng R] {P : Primitives R} {F : OnionFormat P}

/-! ## The size of a formed onion -/

/-- INTERNAL: **whatever the paths are**, what is formed has the size that the limit and the length
of the payload determine.  SRC: src/lib.rs:304-316, 623-684 -/
theorem formOnion_uniform (hP : P.Lawful) (hW : P.Widths 16 40) {fwd bwd : List Address}
    (hfwd : fwd ≠ []) (hbwd : bwd ≠ []) (h : ¬ TooLong F fwd bwd)
    (hknown : ∀ a ∈ fwd ++ bwd, (F.pki.get a).isSome) (payload : Bytes) (rng : R) :
    ∃ o expected rng', F.formOnion fwd bwd payload rng = .ok ((o, expected), rng') ∧
      Uniform F payload.length o := by
  obtain ⟨hfwd', hbwd'⟩ := not_or.mp h
  rw [not_lt] at hfwd' hbwd'
  obtain ⟨key, -, hform⟩ := formOnion_eq hfwd hbwd hfwd' hbwd' payload rng
  obtain ⟨back₁, backₙ, tagB, rng₁, hback⟩ := onionize_total hW.tag hbwd
    (keysBackward_length P (P.randomKey rng).1 (List.length_pos_of_ne_nil hbwd)) hbwd'
    (fun a ha => hknown a (List.mem_append_right fwd ha))
    (OnionFormat.metaBackward fwd.length bwd.length)
    (.backward (randomPayload F key payload.length)) 0 (P.randomKey rng).2
  obtain ⟨o, oₙ, tag, rng₂, hforw⟩ := onionize_total hW.tag hfwd
    (keysForward_length P (P.randomKey rng).1 fwd.length) hfwd'
    (fun a ha => hknown a (List.mem_append_left bwd ha)) ⟨.receiver, bwd.head hbwd⟩
    (.forward (innerPayload back₁ payload)) payload.length rng₁
  obtain ⟨initB, lastB, garbageB, hB⟩ := assembled_of_onionize hP hW.tag hback
  obtain ⟨initF, lastF, garbageF, hF⟩ := assembled_of_onionize hP hW.tag hforw
  refine ⟨o, ⟨backₙ.packedHeader, oₙ, tag⟩, rng₂, ?_, ?_⟩
  · rw [hform, hback, ok_bind]
    dsimp only
    rw [hforw, ok_bind]
    rfl
  · obtain ⟨-, -, hbackward, -⟩ := hF.carries
    have hcover : o.forward = coverAll (coverForward P) _ (innerPayload back₁ payload) :=
      hF.forward_eq hP
    have hforward : o.forward.length = F.totalHeaderLength + 8 + payload.length := by
      rw [hcover, coverAll_coverForward_length, innerPayload_length (hB.wellFormed hW rfl)]
    apply uniform_of_shape hW.tag _ hbackward
    rw [← hforward]
    exact shape_of_wellFormed (hF.wellFormed hW rfl)

/-! ## The addresses -/

variable {E : EcCrates R}

/-- The list of addresses is the list of the keys of the map. -/
structure Collected (s : Pki P × List Address) : Prop where
  mem : ∀ a, a ∈ s.2 ↔ (s.1.get a).isSome
  nodup : s.2.Nodup

/-- An insertion adds one address. -/
theorem insertKey_known (s : (Pki E.ecPrimitives × List Address) × R) (a : Address) :
    ((insertKey E s).1.1.get a).isSome ↔ a = (genAddress s.2).1 ∨ (s.1.1.get a).isSome := by
  by_cases ha : a = (genAddress s.2).1
  · have hget : (insertKey E s).1.1.get a = some (E.generateKeypair (genAddress s.2).2).1.2 :=
      if_pos ha
    rw [hget]
    exact iff_of_true rfl (Or.inl ha)
  · have hget : (insertKey E s).1.1.get a = s.1.1.get a := if_neg ha
    rw [hget, or_iff_right ha]

/-- The list of the addresses grows with the key store. -/
theorem collected_insertKey {s : (Pki E.ecPrimitives × List Address) × R} (h : Collected s.1) :
    Collected (insertKey E s).1 ∧ (insertKey E s).1.2.length ≤ s.1.2.length + 1 := by
  have hkeys : (insertKey E s).1.2 = if (s.1.1.get (genAddress s.2).1).isSome then s.1.2
      else s.1.2 ++ [(genAddress s.2).1] := rfl
  by_cases hold : (s.1.1.get (genAddress s.2).1).isSome
  · rw [if_pos hold] at hkeys
    refine ⟨⟨?_, hkeys.symm ▸ h.nodup⟩, hkeys ▸ Nat.le_succ _⟩
    intro a
    rw [hkeys, insertKey_known, h.mem, iff_or_self]
    rintro rfl
    exact hold
  · rw [if_neg hold] at hkeys
    refine ⟨⟨?_, ?_⟩, by rw [hkeys, List.length_append, List.length_singleton]⟩
    · intro a
      rw [hkeys, insertKey_known, List.mem_append, List.mem_singleton, h.mem, or_comm]
    · rw [hkeys, ← List.concat_eq_append]
      exact List.Nodup.concat (fun hmem => hold ((h.mem _).mp hmem)) h.nodup

/-- **The addresses are those in the key store**, each one once, and no more than were drawn.
SRC: examples/onion_sizes.rs:8-13 -/
theorem insertKeys_collected (count : ℕ) (rng : R) :
    Collected (insertKeys E count rng).1 ∧ (insertKeys E count rng).1.2.length ≤ count := by
  induction count with
  | zero =>
      refine ⟨⟨fun a => ?_, List.nodup_nil⟩, le_rfl⟩
      exact iff_of_false List.not_mem_nil Bool.false_ne_true
  | succ count ih =>
      rw [insertKeys, Function.iterate_succ_apply']
      obtain ⟨hcollected, hlen⟩ := collected_insertKey ih.1
      exact ⟨hcollected, hlen.trans (Nat.succ_le_succ ih.2)⟩

/-- How many different addresses are drawn for a path of the given length.
SRC: examples/onion_sizes.rs:8-13 -/
def drawn (E : EcCrates R) (pathLength : UInt32) (rng : R) : ℕ :=
  (insertKeys E (2 * pathLength).toNat rng).1.2.length

/-- Also where the multiplication wraps. -/
theorem drawn_le (pathLength : UInt32) (rng : R) :
    drawn E pathLength rng ≤ (2 * pathLength).toNat :=
  (insertKeys_collected _ rng).2

/-! ## One line -/

variable {order : List Address → List Address}

/-- More addresses than the path has hops are drawn only if the path has a hop and the
multiplication does not wrap.  SRC: examples/onion_sizes.rs:9 -/
theorem drawn_bounds {pathLength : UInt32} {rng : R}
    (h : pathLength.toNat < drawn E pathLength rng) :
    0 < pathLength.toNat ∧ pathLength.toNat < 2 ^ 31 ∧
      drawn E pathLength rng ≤ 2 * pathLength.toNat := by
  have hle := drawn_le (E := E) pathLength rng
  have hlt := pathLength.toNat_lt
  rw [UInt32.toNat_mul] at hle
  change _ ≤ 2 * pathLength.toNat % 2 ^ 32 at hle
  omega

/-- INTERNAL: **an onion is made** as soon as one address is left for the way back, and otherwise
the program panics.  SRC: examples/onion_sizes.rs:4-30 -/
theorem generateOnion_size (hE : E.Lawful) (horder : ∀ keys, (order keys).Perm keys)
    (pathLength : UInt32) (payloadSize : ℕ) (rng : R) :
    (pathLength.toNat < drawn E pathLength rng → ∃ o,
      generateOnion E order pathLength payloadSize rng = .ok o ∧
        o.serialize.length = 248 * pathLength.toNat + 2 * payloadSize + 56) ∧
    (drawn E pathLength rng ≤ pathLength.toNat →
      generateOnion E order pathLength payloadSize rng = .error .panic) := by
  have hcollected := (insertKeys_collected (E := E) (2 * pathLength).toNat rng).1
  have hbound : pathLength.toNat < drawn E pathLength rng → _ := drawn_bounds
  unfold drawn at hbound ⊢
  unfold generateOnion
  generalize insertKeys E (2 * pathLength).toNat rng = s at hcollected hbound ⊢
  obtain ⟨⟨pki, keys⟩, rng'⟩ := s
  dsimp only at hcollected hbound ⊢
  have hperm := horder keys
  rw [← hperm.length_eq] at hbound ⊢
  have hknown : ∀ a ∈ order keys, (pki.get a).isSome :=
    fun a ha => (hcollected.mem a).mp (hperm.mem_iff.mp ha)
  generalize order keys = addresses at hbound hknown ⊢
  let F : OnionFormat E.ecPrimitives := ⟨pathLength, pki⟩
  have hlimit : F.pathLimit = pathLength.toNat := rfl
  constructor
  · intro hmore
    obtain ⟨hpos, -, hle⟩ := hbound hmore
    have hfwd : addresses.take pathLength.toNat ≠ [] := by
      rw [← List.length_pos_iff, List.length_take]
      omega
    have hbwd : addresses.drop pathLength.toNat ≠ [] := by
      rw [← List.length_pos_iff, List.length_drop]
      omega
    have hshort : ¬ TooLong F (addresses.take pathLength.toNat)
        (addresses.drop pathLength.toNat) := by
      rw [TooLong, hlimit, List.length_take, List.length_drop]
      omega
    obtain ⟨o, expected, rng'', hform, huniform⟩ := formOnion_uniform (ecPrimitives_lawful hE)
      ecPrimitives_widths hfwd hbwd hshort (by rwa [List.take_append_drop])
      (List.replicate payloadSize 0) rng'
    rw [if_neg (Nat.lt_asymm hmore), hform]
    refine ⟨o, rfl, ?_⟩
    have hkey : E.ecPrimitives.symmetricKeyLength = 16 := rfl
    rw [huniform.serialized, hlimit, List.length_replicate, onionLength, hkey, addressLength]
    omega
  · intro hfew
    rcases Nat.lt_or_eq_of_le hfew with hfew | hall
    · rw [if_pos hfew]
      rfl
    · have hbwd : addresses.drop pathLength.toNat = [] := by rw [← hall, List.drop_length]
      have hshort : ¬ TooLong F (addresses.take pathLength.toNat)
          (addresses.drop pathLength.toNat) := by
        rw [TooLong, hlimit, List.length_take, List.length_drop]
        omega
      rw [if_neg (Nat.not_lt_of_ge hall.ge), formOnion_of_nil hshort (Or.inr hbwd)]
      rfl

section Sphinx

open Sphinx

variable {S : Crates}

/-- A value that is returned is unwrapped. -/
theorem orPanic_toOption {ε α : Type} {x : Except ε α} {Q : α → Prop}
    (h : ∃ a, x = .ok a ∧ Q a) : ∃ a, orPanic x.toOption = .ok a ∧ Q a := by
  obtain ⟨a, rfl, ha⟩ := h
  exact ⟨a, rfl, ha⟩

/-- There are as many nodes as are asked for. -/
theorem generateSphinxNode_length (count : ℕ) (rng : R) :
    ((generateSphinxNode S)^[count] ([], rng)).1.length = count := by
  induction count with
  | zero => rfl
  | succ count ih =>
      rw [Function.iterate_succ_apply', generateSphinxNode, List.length_append, ih]
      rfl

/-- A packet for a route that fits has the length of a header and a payload. -/
theorem buildPacket_length (hS : S.Lawful) {route : List Node} {delays : List Delay}
    (hfits : Fits route delays) {message : Bytes} {payloadSize : ℕ}
    (hsize : lionessDigestResultSize < payloadSize) (hmax : payloadSize ≤ isizeMax)
    (hmessage : message.length + payloadOverheadSize ≤ payloadSize)
    (secret : Option (PrivateKey S)) (dest : Destination) (rng : R) : ∃ packet,
      SphinxPacket.buildPacket S payloadSize secret message route dest delays rng = .ok packet ∧
        packet.toBytes.length = headerSize + payloadSize := by
  obtain ⟨header, keys, hheader, -⟩ := headerNew_ok (secret.getD (PrivateKey.new rng)) hfits dest
    (genBytes 32 rng).2
  obtain ⟨payload, hpayload, hlength, -⟩ := encapsulateMessage_spec hS keys hsize hmax hmessage
  refine ⟨⟨header, payload⟩, buildPacket_of hheader hpayload, ?_⟩
  rw [packet_toBytes_length]
  exact congrArg (headerSize + ·) hlength

/-- INTERNAL: **a packet is made** for a path of one to five hops, and its header and the assumed
SURB have a length each that the path does not change.  SRC: examples/onion_sizes.rs:32-71 -/
theorem generateSphinxOnion_size (hS : S.Lawful) {pathLength : ℕ} (hpos : 0 < pathLength)
    (hle : pathLength ≤ maxPathLength) {payloadSize : ℕ} (hpayload : payloadSize ≤ 4096)
    (rng : R) : ∃ packet,
      generateSphinxOnion S pathLength payloadSize rng = .ok packet ∧
        packet.toBytes.length = payloadSize + 713 := by
  unfold generateSphinxOnion
  have hroute := generateSphinxNode_length (S := S) (2 * pathLength) rng
  generalize (generateSphinxNode S)^[2 * pathLength] ([], rng) = s at hroute ⊢
  obtain ⟨route, rng'⟩ := s
  dsimp only at hroute ⊢
  have htake : (route.take pathLength).length = pathLength := by
    rw [List.length_take]
    omega
  have hfits : Fits (route.take pathLength)
      ((List.replicate (2 * pathLength) (0 : Delay)).take pathLength) := by
    refine ⟨htake.symm ▸ hpos, htake.symm ▸ hle, ?_⟩
    rw [htake, List.length_take, List.length_replicate]
    omega
  have hsize : lionessDigestResultSize < payloadSize + headerSize + payloadOverheadSize := by
    simp only [sizes]
    omega
  have hmax : payloadSize + headerSize + payloadOverheadSize ≤ isizeMax := by
    simp only [sizes, isizeMax]
    omega
  have hmessage : (List.replicate (payloadSize + headerSize) (0 : UInt8)).length +
      payloadOverheadSize ≤ payloadSize + headerSize + payloadOverheadSize := by
    rw [List.length_replicate]
  have hbuild : ∀ (dest : Destination) (rng : R), ∃ packet, SphinxPacket.buildPacket S
      (payloadSize + headerSize + payloadOverheadSize) none
      (List.replicate (payloadSize + headerSize) 0) (route.take pathLength) dest
      ((List.replicate (2 * pathLength) 0).take pathLength) rng = .ok packet ∧
        packet.toBytes.length = payloadSize + 713 := by
    intro dest rng
    obtain ⟨packet, hpacket, hlength⟩ := buildPacket_length hS hfits hsize hmax hmessage none
      dest rng
    refine ⟨packet, hpacket, hlength.trans ?_⟩
    simp only [sizes]
    omega
  exact orPanic_toOption (hbuild _ _)

end Sphinx

/-! ## The table -/

/-- A loop whose rounds return under a condition returns when it holds in all of them. -/
theorem mapM_ite {α β : Type} {f : α → Exec β} {g : α → β} {p : α → Prop} [DecidablePred p]
    {e : Fault} {l : List α} (h : ∀ a ∈ l, f a = if p a then .ok (g a) else .error e) :
    l.mapM f = if ∀ a ∈ l, p a then .ok (l.map g) else .error e := by
  induction l with
  | nil => rfl
  | cons a l ih =>
      have hrest := ih fun b hb => h b (List.mem_cons_of_mem a hb)
      rw [List.mapM_cons, h a List.mem_cons_self]
      by_cases ha : p a
      · rw [if_pos ha, ok_bind, hrest]
        by_cases hl : ∀ b ∈ l, p b
        · rw [if_pos hl, if_pos (List.forall_mem_cons.mpr ⟨ha, hl⟩)]
          rfl
        · rw [if_neg hl, if_neg fun hall => hl (List.forall_mem_cons.mp hall).2]
          rfl
      · rw [if_neg ha, if_neg fun hall => ha (List.forall_mem_cons.mp hall).1]
        rfl

variable {S : Sphinx.Crates}

/-- The line for a path and a payload of the given lengths. -/
def lineOf (pathLength payloadSize : ℕ) : String :=
  sizesLine (toString pathLength) (toString payloadSize)
    (toString (248 * pathLength + 2 * payloadSize + 56))
    (if pathLength ≤ Sphinx.maxPathLength then toString (payloadSize + 713) else "---")

example : lineOf 1 0 =
    "1           | 0                    | 304                     | 713                      " := by
  decide

/-- **One round of the table**: the line, or a panic when too few addresses were drawn.
SRC: examples/onion_sizes.rs:75-96 -/
theorem sizesRound_eq (hE : E.Lawful) (hS : S.Lawful) (horder : ∀ keys, (order keys).Perm keys)
    (pathLength : UInt32) {payloadSize : ℕ} (hpayload : payloadSize ≤ 4096) (rng : R × R) :
    sizesRound E S order pathLength payloadSize rng =
      if pathLength.toNat < drawn E pathLength rng.1 then
        .ok (lineOf pathLength.toNat payloadSize)
      else .error .panic := by
  obtain ⟨hmore, hfew⟩ := generateOnion_size hE horder pathLength payloadSize rng.1
  unfold sizesRound
  by_cases hdrawn : pathLength.toNat < drawn E pathLength rng.1
  · obtain ⟨o, ho, hlen⟩ := hmore hdrawn
    rw [if_pos hdrawn, ho, ok_bind]
    dsimp only
    rw [hlen, lineOf]
    by_cases hlong : pathLength.toNat ≤ Sphinx.maxPathLength
    · obtain ⟨packet, hpacket, hsize⟩ := generateSphinxOnion_size hS
        (drawn_bounds hdrawn).1 hlong hpayload rng.2
      rw [if_pos hlong, if_pos hlong, hpacket, ok_bind, ← hsize]
      rfl
    · rw [if_neg hlong, if_neg hlong]
      rfl
  · rw [if_neg hdrawn, hfew (Nat.le_of_not_lt hdrawn), error_bind]

/-- **What the program prints**: for each payload size, an onion of 248 bytes for each hop of the
path, twice the payload and 56 bytes, and a Sphinx packet of 713 bytes and the payload where the
path is not too long for one.  It panics exactly when for some size not more different addresses
were drawn than the path has hops, as always for a path without hops, and for one so long that
twice its length wraps.  SRC: examples/onion_sizes.rs:73-98 -/
theorem onionSizes_prints (hE : E.Lawful) (hS : S.Lawful)
    (horder : ∀ keys, (order keys).Perm keys) (pathLength : UInt32) (rng : ℕ → R × R) :
    onionSizes E S order pathLength rng =
      (if ∀ size ∈ payloadSizes, pathLength.toNat < drawn E pathLength (rng size).1 then
        .ok (payloadSizes.map (lineOf pathLength.toNat))
      else .error .panic) ∧
    (pathLength = 0 ∨ 2 ^ 31 ≤ pathLength.toNat →
      onionSizes E S order pathLength rng = .error .panic) := by
  have hsizes : ∀ size ∈ payloadSizes, size ≤ 4096 := by decide
  have heq := mapM_ite (l := payloadSizes) fun size hsize =>
    sizesRound_eq hE hS horder pathLength (hsizes size hsize) (rng size)
  refine ⟨heq, ?_⟩
  intro hnever
  refine heq.trans (if_neg ?_)
  intro hall
  obtain ⟨hpos, hlt, -⟩ := drawn_bounds (hall 0 List.mem_cons_self)
  rcases hnever with rfl | hlong
  · exact absurd hpos (lt_irrefl 0)
  · exact absurd hlong (Nat.not_le_of_lt hlt)

/-- Each source of randomness has two different addresses. -/
theorem onionSizes_prints_sample :
    onionSizes sampleCrates Sphinx.sampleCrates id 1 (fun size => (size, size)) =
      .ok (payloadSizes.map (lineOf 1)) := by
  have horder : ∀ keys : List Address, (id keys).Perm keys := fun keys => .refl keys
  have hprints := (onionSizes_prints sampleCrates_lawful Sphinx.sampleCrates_lawful horder 1
    (fun size => (size, size))).1
  have hdrawn : ∀ size ∈ payloadSizes, 1 < drawn sampleCrates 1 size := by decide
  exact hprints.trans (if_pos hdrawn)

end Eror.Analysis
