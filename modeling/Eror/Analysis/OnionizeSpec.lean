import Eror.Analysis.OnionLayers

/-!
# What `onionize` returns

`Assembled` is the specification of `onionize`: the innermost header is a tagged first block,
random blocks and the predicted blocks of all keys but the last; the outermost one is the
innermost one with the layers of the other hops on; and the payload is what the variant asks
for (`Carries`).  Once the public-key ciphertexts are there no stage can fail
(`onionize_of_metaCiphers`), so `onionize` returns on registered hops (`onionize_total`) and
whatever it returns is assembled (`assembled_of_onionize`).
-/

set_option autoImplicit false

namespace Eror.Analysis

open Library Model

variable {R : Type} {P : Primitives R} {w c : ℕ} {F : OnionFormat P}

/-- Take a layer off the forward section. -/
def peelForward (P : Primitives R) (key : P.SymmetricKey) (data : Bytes) : Bytes :=
  P.symmetricDecrypt (P.deriveKey .symEnc key) nonceFwd data

/-- The sections that `onionize` chooses for a payload: in a forward onion the innermost forward
section is the encrypted payload, the backward section is random of the given length and loses
a layer at each hop, and the expected tag is what the last hop will read.  In a backward onion
the forward section is prepared such that the first hop can send the data as they are.
SRC: src/lib.rs:482-509 -/
def Carries (P : Primitives R) (keys : List P.SymmetricKey) (key : P.SymmetricKey)
    (payload : Payload) (backwardPayloadLength : ℕ) (s : OnionFormat.Payloads P) : Prop :=
  match payload with
  | .forward data =>
      peelForward P key s.fwdN = data ∧ s.fwdN.length = data.length ∧
        s.bwd.1.length = backwardPayloadLength ∧
        s.bwdN = peelAll (peelBackward P) keys s.bwd ∧
        s.expectedTag = (peelBackward P key s.bwdN).2
  | .backward data => s.fwdN = peelAll (peelForward P) keys data

/-- INTERNAL: choosing the sections does not fail.  SRC: src/lib.rs:482-509 -/
theorem payloads_spec [Rng R] (hw : P.tagCodec.FixedWidth w) (keys : List P.SymmetricKey)
    (key : P.SymmetricKey) (payload : Payload) (len : ℕ) (rng : R) : ∃ s rng',
      OnionFormat.payloads (keys ++ [key]) ((keys ++ [key]).map (P.deriveKey .symEnc)) payload len
        rng = .ok (s, rng') ∧ (P.Lawful → Carries P keys key payload len s) := by
  cases payload with
  | forward data =>
      have hkey : ((keys ++ [key]).map (P.deriveKey .symEnc))[(keys ++ [key]).length - 1]? =
          some (P.deriveKey .symEnc key) := by simp
      have hlast : (keys ++ [key]).getLast? = some key := List.getLast?_concat
      let garbage := genBytes len rng
      let tag := P.randomTag garbage.2
      let bwdN := peelAll (peelBackward P) keys (garbage.1, tag.1)
      refine ⟨⟨P.symmetricEncrypt (P.deriveKey .symEnc key) nonceFwd data, (garbage.1, tag.1), bwdN,
        (peelBackward P key bwdN).2⟩, tag.2, ?_, fun hP => ⟨?_, ?_, ?_, rfl, rfl⟩⟩
      · unfold OnionFormat.payloads
        dsimp only
        rw [draw_bind_ok (draw_lift_ok (orPanic_eq_ok.mpr hkey)),
          draw_bind_ok (show draw (genBytes len) rng = .ok (garbage.1, garbage.2) from rfl),
          draw_bind_ok (show draw P.randomTag garbage.2 = .ok (tag.1, tag.2) from rfl),
          List.dropLast_concat, draw_bind_ok (draw_lift_ok (foldlM_aeUnwrap hw keys _)),
          draw_bind_ok (draw_lift_ok (orPanic_eq_ok.mpr hlast)),
          draw_bind_ok (draw_lift_ok (aeUnwrap_eq hw key _))]
        rfl
      · exact hP.symmetricDecrypt_symmetricEncrypt _ _ _
      · exact P.symmetricEncrypt_length ..
      · exact genBytes_length ..
  | backward data =>
      refine ⟨_, _, rfl, fun _ => ?_⟩
      rw [Carries, ← List.map_dropLast, List.dropLast_concat, List.foldl_map]
      rfl

/-- **The specification of `onionize`**, for the plans `init` of the relays and `last` of the
last hop.  SRC: src/lib.rs:423-538 -/
structure Assembled (F : OnionFormat P) (keys : List P.SymmetricKey) (hops : List Address)
    (hopMeta : Meta) (payload : Payload) (backwardPayloadLength : ℕ) (o₁ oₙ : Onion P)
    (tag : P.Tag) (init : List (HopPlan P)) (last : HopPlan P) (garbage : List Bytes) : Prop where
  planned : Planned F keys hops ((init ++ [last]).map HopPlan.cipher) (init ++ [last])
  hopMeta : last.hopMeta = hopMeta
  limit : init.length < F.pathLimit
  garbage_length : garbage.length = F.pathLimit - (init.length + 1)
  garbage_block : ∀ bs ∈ garbage, bs.length = F.singleHeaderLength
  header : oₙ.header = taggedHeader P last.key last.cipher
    ((garbage ++ fillers F (init.map HopPlan.layerKey)).map .raw) oₙ.forward
  layers : coverAll (coverPlan P) init (oₙ.header, oₙ.forward) = (o₁.header, o₁.forward)
  carries : Carries P (init.map HopPlan.key) last.key payload backwardPayloadLength
    ⟨oₙ.forward, o₁.backward, oₙ.backward, tag⟩

section Assembled

variable {keys : List P.SymmetricKey} {hops : List Address} {hopMeta : Meta} {payload : Payload}
  {len : ℕ} {o₁ oₙ : Onion P} {tag : P.Tag} {init : List (HopPlan P)} {last : HopPlan P}
  {garbage : List Bytes}

/-- The keys of all hops but the last are those of the plans. -/
theorem Assembled.keys_dropLast
    (h : Assembled F keys hops hopMeta payload len o₁ oₙ tag init last garbage) :
    keys.dropLast = init.map HopPlan.key := by
  rw [← h.planned.keys, ← List.map_dropLast, List.dropLast_concat]

/-- The last key is that of the last plan. -/
theorem Assembled.keys_getLast?
    (h : Assembled F keys hops hopMeta payload len o₁ oₙ tag init last garbage) :
    keys.getLast? = some last.key := by
  rw [← h.planned.keys, List.map_append]
  exact List.getLast?_concat

end Assembled

/-- **Nothing behind the public-key ciphertexts fails.**  SRC: src/lib.rs:462-538 -/
theorem onionize_of_metaCiphers [Rng R] (hw : P.tagCodec.FixedWidth w) {keys : List P.SymmetricKey}
    {hops : List Address} (hlen : keys.length = hops.length) (hlimit : hops.length ≤ F.pathLimit)
    {hopMeta : Meta} {rng rng₁ : R} {ciphers : List Bytes}
    (hciphers : F.metaCiphers keys hops hopMeta rng = .ok (ciphers, rng₁)) (payload : Payload)
    (len : ℕ) : ∃ o₁ oₙ tag rng' init last garbage,
      F.onionize keys hops hopMeta payload len rng = .ok ((o₁, oₙ, tag), rng') ∧
      ciphers = (init ++ [last]).map HopPlan.cipher ∧
      (P.Lawful → Assembled F keys hops hopMeta payload len o₁ oₙ tag init last garbage) := by
  obtain ⟨plans, last, hplans, hlast, hmeta⟩ := metaCiphers_spec hlen hciphers
  obtain ⟨init, rfl⟩ := List.getLast?_eq_some_iff.mp hlast
  obtain rfl := hplans.ciphers
  obtain rfl := hplans.keys
  have hn : ((init ++ [last]).map HopPlan.key).length = init.length + 1 := by simp
  have hsym : (((init ++ [last]).map HopPlan.key).map (P.deriveKey .symEnc)).take init.length =
      init.map HopPlan.layerKey := by
    rw [List.map_map, ← List.map_take, List.take_left']
    · rfl
    · rfl
  have hm : init.length + 1 =
      (((init ++ [last]).map HopPlan.key).map (P.deriveKey .symEnc)).length := by simp
  have hlt : init.length < F.pathLimit := by omega
  obtain ⟨t, t', rng₂, garbage, ht, hfill, hrow, hgarbage, hsingle⟩ :=
    lastRow_spec (F := F) hm (by omega) rng₁
  rw [hsym] at hrow
  obtain ⟨s, rng₃, hs, hcarries⟩ :=
    payloads_spec hw (init.map HopPlan.key) last.key payload len rng₂
  rw [← List.map_singleton, ← List.map_append] at hs
  let rest : List (Header P) := (garbage ++ fillers F (init.map HopPlan.layerKey)).map .raw
  let headersN := taggedHeader P last.key last.cipher rest s.fwdN
  let layers := coverAll (coverPlan P) init (headersN, s.fwdN)
  have hcipher : ((init ++ [last]).map HopPlan.cipher)[init.length]? = some last.cipher := by simp
  have hmac : (((init ++ [last]).map HopPlan.key).map (P.deriveKey .mac))[init.length]? =
      some (P.deriveKey .mac last.key) := by simp
  have hwrap : OnionFormat.wrapAll P ((init ++ [last]).map HopPlan.key)
      ((init ++ [last]).map HopPlan.cipher) headersN s.fwdN = layers := by
    rw [wrapAll_eq, List.dropLast_concat]
  refine ⟨⟨layers.1, layers.2, s.bwd⟩, ⟨headersN, s.fwdN, s.bwdN⟩, s.expectedTag, rng₃, init, last,
    garbage, ?_, rfl, fun hP => ⟨hplans, hmeta, hlt, hgarbage, hsingle, rfl, rfl, hcarries hP⟩⟩
  · unfold OnionFormat.onionize
    rw [if_neg (not_not.mpr hlen), if_neg (by omega)]
    dsimp only
    rw [draw_bind_ok hciphers, hn, draw_bind_ok (draw_lift_ok ht), draw_bind_ok hfill,
      draw_bind_ok hs, Nat.add_sub_cancel, draw_bind_ok (draw_lift_ok (orPanic_eq_ok.mpr hcipher)),
      draw_bind_ok (draw_lift_ok (orPanic_eq_ok.mpr hrow)),
      draw_bind_ok (draw_lift_ok (orPanic_eq_ok.mpr hmac))]
    exact congrArg (fun l : LayerState P => Except.ok (((⟨l.1, l.2, s.bwd⟩ : Onion P),
      (⟨headersN, s.fwdN, s.bwdN⟩ : Onion P), s.expectedTag), rng₃)) hwrap

/-- INTERNAL: what `onionize` returns is assembled, from the ciphertexts that it draws first.
SRC: src/lib.rs:423-538 -/
theorem assembled_of_onionize_ciphers [Rng R] (hP : P.Lawful) (hw : P.tagCodec.FixedWidth w)
    {keys : List P.SymmetricKey} {hops : List Address} {hopMeta : Meta} {payload : Payload}
    {len : ℕ} {rng rng' : R} {o₁ oₙ : Onion P} {tag : P.Tag}
    (h : F.onionize keys hops hopMeta payload len rng = .ok ((o₁, oₙ, tag), rng')) :
    ∃ init last garbage rng₁, F.metaCiphers keys hops hopMeta rng =
        .ok ((init ++ [last]).map HopPlan.cipher, rng₁) ∧
      Assembled F keys hops hopMeta payload len o₁ oₙ tag init last garbage := by
  by_cases hlen : keys.length = hops.length
  · by_cases hlimit : hops.length ≤ F.pathLimit
    · obtain ⟨ciphers, rng₁, hciphers⟩ : ∃ ciphers rng₁,
          F.metaCiphers keys hops hopMeta rng = .ok (ciphers, rng₁) := by
        unfold OnionFormat.onionize at h
        rw [if_neg (not_not.mpr hlen), if_neg (by omega)] at h
        obtain ⟨ciphers, rng₁, hciphers, -⟩ := draw_bind_eq_ok.mp h
        exact ⟨ciphers, rng₁, hciphers⟩
      obtain ⟨o₁', oₙ', tag', rng₂, init, last, garbage, h', rfl, hassembled⟩ :=
        onionize_of_metaCiphers hw hlen hlimit hciphers payload len
      rw [h] at h'
      cases h'
      exact ⟨init, last, garbage, rng₁, hciphers, hassembled hP⟩
    · unfold OnionFormat.onionize at h
      rw [if_neg (not_not.mpr hlen), if_pos (by omega)] at h
      cases h
  · unfold OnionFormat.onionize at h
    rw [if_pos hlen] at h
    cases h

/-- **What `onionize` returns is assembled.**  SRC: src/lib.rs:423-538 -/
theorem assembled_of_onionize [Rng R] (hP : P.Lawful) (hw : P.tagCodec.FixedWidth w)
    {keys : List P.SymmetricKey} {hops : List Address} {hopMeta : Meta} {payload : Payload}
    {len : ℕ} {rng rng' : R} {o₁ oₙ : Onion P} {tag : P.Tag}
    (h : F.onionize keys hops hopMeta payload len rng = .ok ((o₁, oₙ, tag), rng')) :
    ∃ init last garbage,
      Assembled F keys hops hopMeta payload len o₁ oₙ tag init last garbage := by
  obtain ⟨init, last, garbage, -, -, hassembled⟩ := assembled_of_onionize_ciphers hP hw h
  exact ⟨init, last, garbage, hassembled⟩

/-- On hops in the key store, no more than the limit, `onionize` returns.
SRC: src/lib.rs:423-538 -/
theorem onionize_total [Rng R] (hw : P.tagCodec.FixedWidth w) {keys : List P.SymmetricKey}
    {hops : List Address} (hne : hops ≠ []) (hlen : keys.length = hops.length)
    (hlimit : hops.length ≤ F.pathLimit) (hreg : ∀ a ∈ hops, (F.pki.get a).isSome)
    (hopMeta : Meta) (payload : Payload) (len : ℕ) (rng : R) : ∃ o₁ oₙ tag rng',
      F.onionize keys hops hopMeta payload len rng = .ok ((o₁, oₙ, tag), rng') := by
  obtain ⟨⟨ciphers, rng₁⟩, hciphers⟩ := metaCiphers_total (F := F) hne hlen hopMeta rng hreg
  obtain ⟨o₁, oₙ, tag, rng', -, -, -, h, -, -⟩ :=
    onionize_of_metaCiphers hw hlen hlimit hciphers payload len
  exact ⟨o₁, oₙ, tag, rng', h⟩

/-- On a path within the limit one hop that is not in the key store fails `onionize`.
SRC: src/lib.rs:433-460 -/
theorem onionize_missing [Rng R] {keys : List P.SymmetricKey} {hops : List Address}
    (hne : hops ≠ []) (hlen : keys.length = hops.length) (hlimit : hops.length ≤ F.pathLimit)
    (hmissing : ∃ a ∈ hops, F.pki.get a = none) (hopMeta : Meta) (payload : Payload) (len : ℕ)
    (rng : R) : F.onionize keys hops hopMeta payload len rng = .error (.err .keyNotFound) := by
  unfold OnionFormat.onionize
  rw [if_neg (not_not.mpr hlen), if_neg (by omega)]
  exact draw_bind_error (metaCiphers_missing hne hlen hopMeta rng hmissing)

end Eror.Analysis
