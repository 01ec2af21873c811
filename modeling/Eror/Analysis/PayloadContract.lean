import Eror.Analysis.FormOnionSpec

/-!
# What the payload of `onionize` means

A forward payload appears in plain at the last hop, with one layer on it for each hop that has
not unwrapped yet; a backward payload is what the first hop is sent (`onionize_payload`).  The
forward section loses one layer at each `unwrap` (`forward_of_unwrapPath`), and a run along the
whole path contains the run along each shorter one (`unwrapPath_take`).
-/

set_option autoImplicit false

namespace Eror.Analysis

open Library Model

variable {R : Type} {P : Primitives R} {w c : ℕ} {F : OnionFormat P}

/-! ## Runs of `unwrap` -/

/-- INTERNAL: the forward section loses the layers of the keys that the nodes obtain.
SRC: src/lib.rs:571 -/
theorem forward_of_unwrapPath (hw : P.tagCodec.FixedWidth w) {sks : List P.PrivateKey}
    {o o' : Onion P} {opened : List (P.SymmetricKey × Meta)}
    (h : unwrapPath F sks o = .ok (opened, o')) :
    o'.forward = peelAll (peelForward P) (opened.map Prod.fst) o.forward := by
  induction sks generalizing o opened with
  | nil =>
      cases h
      rfl
  | cons sk sks ih =>
      rw [unwrapPath, bind_eq_ok] at h
      obtain ⟨⟨key, hopMeta, n⟩, hunwrap, h⟩ := h
      obtain ⟨⟨opened', final⟩, hrun, h⟩ := bind_eq_ok.mp h
      cases h
      obtain ⟨-, -, hn⟩ := authentic_of_unwrap hw hunwrap
      have hforward : n.forward = peelForward P key o.forward := by
        rw [hn]
        rfl
      rw [List.map_cons, peelAll_cons, ← hforward]
      exact ih hrun

/-- INTERNAL: a run along a path contains the runs along its beginnings. -/
theorem unwrapPath_take {sks : List P.PrivateKey} {o o' : Onion P}
    {opened : List (P.SymmetricKey × Meta)} (h : unwrapPath F sks o = .ok (opened, o')) (k : ℕ) :
    ∃ mid, unwrapPath F (sks.take k) o = .ok (opened.take k, mid) := by
  induction sks generalizing o opened k with
  | nil =>
      cases h
      rw [List.take_nil, List.take_nil]
      exact ⟨_, rfl⟩
  | cons sk sks ih =>
      rw [unwrapPath, bind_eq_ok] at h
      obtain ⟨⟨key, hopMeta, n⟩, hunwrap, h⟩ := h
      obtain ⟨⟨opened', final⟩, hrun, h⟩ := bind_eq_ok.mp h
      cases h
      cases k with
      | zero => exact ⟨_, rfl⟩
      | succ k =>
          obtain ⟨mid, hmid⟩ := ih hrun k
          refine ⟨mid, ?_⟩
          rw [List.take_succ_cons, List.take_succ_cons, unwrapPath, hunwrap, ok_bind]
          dsimp only
          rw [hmid, ok_bind]
          rfl

/-- One more hop takes its layer off. -/
theorem unwrapPath_append_singleton {sks : List P.PrivateKey} {sk : P.PrivateKey}
    {o mid final : Onion P} {opened : List (P.SymmetricKey × Meta)} {key : P.SymmetricKey}
    {hopMeta : Meta} (hrun : unwrapPath F sks o = .ok (opened, mid))
    (hlast : F.unwrap sk mid = .ok (key, hopMeta, final)) :
    unwrapPath F (sks ++ [sk]) o = .ok (opened ++ [(key, hopMeta)], final) := by
  induction sks generalizing o opened with
  | nil =>
      cases hrun
      rw [List.nil_append, unwrapPath, hlast]
      rfl
  | cons sk' sks ih =>
      rw [unwrapPath, bind_eq_ok] at hrun
      obtain ⟨⟨key', hopMeta', n⟩, hunwrap, hrun⟩ := hrun
      obtain ⟨⟨opened', mid'⟩, hrest, hrun⟩ := bind_eq_ok.mp hrun
      cases hrun
      rw [List.cons_append, unwrapPath, hunwrap, ok_bind]
      dsimp only
      rw [ih hrest]
      rfl

/-- All hops of a path unwrap, the last one included, and obtain the keys in order. -/
theorem Path.unwrapPath_hops {sk : Address → P.PrivateKey} {keys : List P.SymmetricKey}
    {hops : List Address} {hopMeta : Meta} {o₁ oₙ : Onion P} {pre : List (Leg P)} {last : Leg P}
    (h : Path F sk keys hops hopMeta o₁ oₙ pre last) :
    ∃ opened final, unwrapPath F (hops.map sk) o₁ = .ok (opened, final) ∧
      opened.map Prod.fst = keys := by
  obtain ⟨o, hrun, hfront, -⟩ := unwrapPath_of_isChain pre last h.chain h.first
  have hall := unwrapPath_append_singleton hrun (h.accept o hfront)
  have hsks : hops.map sk = pre.map (fun leg => sk leg.node) ++ [sk last.node] := by
    rw [← h.node, List.map_map, List.map_append]
    rfl
  refine ⟨_, _, hsks ▸ hall, ?_⟩
  rw [List.map_append, List.map_fst_zip (by simp), ← h.key, List.map_append]
  rfl

/-! ## The contract -/

/-- **The contract of the payload.**  On registered hops `onionize` returns.  With a backward
payload the first onion's forward section is the data.  With a forward payload every beginning
of the path unwraps, and after `k` hops the forward section is the data under the layers of the
hops from the last one back to hop `k`: none is left when all hops have unwrapped.
SRC: src/lib.rs:272-290, 404-413, 481-523, 571 -/
theorem onionize_payload [Rng R] (hP : P.Lawful) (hW : P.Widths w c) (F : OnionFormat P)
    (sk : Address → P.PrivateKey) (keys : List P.SymmetricKey) (hops : List Address)
    (hhops : Primitives.Routable F sk hops) (hlen : keys.length = hops.length) (hopMeta : Meta)
    (data : Bytes) (len : ℕ) (rng : R) :
    (∃ o₁ oₙ tag rng', F.onionize keys hops hopMeta (.backward data) len rng =
        .ok ((o₁, oₙ, tag), rng') ∧ o₁.forward = data) ∧
      ∃ o₁ oₙ tag rng', F.onionize keys hops hopMeta (.forward data) len rng =
          .ok ((o₁, oₙ, tag), rng') ∧
        ∀ k ≤ hops.length, ∃ opened o, unwrapPath F ((hops.take k).map sk) o₁ = .ok (opened, o) ∧
          o.forward = (keys.drop k).reverse.foldl (fun data key =>
            P.symmetricEncrypt (P.deriveKey .symEnc key) nonceFwd data) data := by
  have hget : ∀ a ∈ hops, (F.pki.get a).isSome := fun a ha => (hhops.registered a ha).isSome
  constructor
  · obtain ⟨o₁, oₙ, tag, rng', h⟩ := onionize_total hW.tag hhops.ne_nil hlen hhops.le hget hopMeta
      (.backward data) len rng
    obtain ⟨init, last, garbage, hassembled⟩ := assembled_of_onionize hP hW.tag h
    exact ⟨o₁, oₙ, tag, rng', h, hassembled.forward_eq hP⟩
  · obtain ⟨o₁, oₙ, tag, rng', h⟩ := onionize_total hW.tag hhops.ne_nil hlen hhops.le hget hopMeta
      (.forward data) len rng
    obtain ⟨init, last, garbage, hassembled⟩ := assembled_of_onionize hP hW.tag h
    obtain ⟨pre, lastLeg, hpath⟩ := path_of_assembled hP hW hhops.registered hassembled
    obtain ⟨opened, final, hrun, hopened⟩ := hpath.unwrapPath_hops
    have hforward : o₁.forward = coverAll (coverForward P) keys data := hassembled.forward_eq hP
    refine ⟨o₁, oₙ, tag, rng', h, ?_⟩
    intro k _
    obtain ⟨o, hmid⟩ := unwrapPath_take hrun k
    refine ⟨opened.take k, o, ?_, ?_⟩
    · rw [List.map_take]
      exact hmid
    · have hlayers := peelAll_coverAll_append (peelForward_coverForward hP) (keys.take k)
        (keys.drop k) data
      rw [List.take_append_drop] at hlayers
      rw [forward_of_unwrapPath hW.tag hmid, List.map_take, hopened, hforward, hlayers,
        List.foldl_reverse]
      rfl

/-- Two hops: in plain at the end, and under the layer of the second hop before it. -/
theorem onionize_payload_sample : ∃ o₁ oₙ tag rng',
    (sampleFormat 3).onionize [List.Vector.replicate 16 1, List.Vector.replicate 16 2]
      [sampleAddress 7, sampleAddress 8] ⟨.receiver, sampleAddress 9⟩ (.forward [1, 2, 3]) 3 0 =
        .ok ((o₁, oₙ, tag), rng') ∧
      ∃ opened o, unwrapPath (sampleFormat 3)
        [samplePrivateKey (sampleAddress 7), samplePrivateKey (sampleAddress 8)] o₁ =
          .ok (opened, o) ∧ o.forward = [1, 2, 3] := by
  have hhops : Primitives.Routable (sampleFormat 3) samplePrivateKey
      [sampleAddress 7, sampleAddress 8] := sampleFormat_routable 3 (by decide) (by decide)
  obtain ⟨-, o₁, oₙ, tag, rng', h, hrun⟩ := onionize_payload samplePrimitives_lawful
    samplePrimitives_widths (sampleFormat 3) samplePrivateKey
    [List.Vector.replicate 16 1, List.Vector.replicate 16 2] _ hhops rfl
    ⟨.receiver, sampleAddress 9⟩ [1, 2, 3] 3 (0 : ℕ)
  obtain ⟨opened, o, hunwrap, hforward⟩ := hrun 2 le_rfl
  exact ⟨o₁, oₙ, tag, rng', h, opened, o, hunwrap, hforward⟩

end Eror.Analysis
