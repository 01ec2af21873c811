import Eror.Analysis.BlockLengths
import Eror.Analysis.Circuit

/-!
# What `form_onion` returns

`form_onion` assembles the backward onion, puts its header in front of the payload, and
assembles the forward onion around that.  `formOnion_spec` takes both apart.  Unwrapping keeps
the shape of a front (`FrontStep.shape`), and the forward section of the first onion is the
payload under its layers, or the payload itself (`Assembled.forward_eq`).
-/

set_option autoImplicit false

namespace Eror.Analysis

open Library Model

variable {R : Type} {P : Primitives R} {w c : ℕ} {F : OnionFormat P}

/-- The forward section of the backward onion, for the key of the receiver.
SRC: src/lib.rs:645-648 -/
def randomPayload (F : OnionFormat P) (key : P.SymmetricKey) (len : ℕ) : Bytes :=
  P.prng (P.deriveKey .prng key) (List.replicate (F.totalHeaderLength + 8 + len) 0)

/-- What the forward onion carries.  SRC: src/lib.rs:672-673 -/
def innerPayload (o : Onion P) (payload : Bytes) : Bytes :=
  replyCodec.encode (headerBytes o.header, payload)

/-- There is a key for each forward hop. -/
@[simp] theorem keysForward_length (P : Primitives R) (k : P.SymmetricKey) (n : ℕ) :
    (OnionFormat.keysForward P k n).length = n := by
  simp [OnionFormat.keysForward]

/-- There is a key for each backward hop. -/
theorem keysBackward_length (P : Primitives R) (k : P.SymmetricKey) {n : ℕ} (h : 1 ≤ n) :
    (OnionFormat.keysBackward P k n).length = n := by
  simp [OnionFormat.keysBackward]
  omega

/-- The receiver has the last forward key. -/
theorem keysForward_getLast? (P : Primitives R) (k : P.SymmetricKey) (n : ℕ) :
    (OnionFormat.keysForward P k (n + 1)).getLast? =
      some (P.deriveKey (.forward (UInt32.ofNat n)) k) := by
  rw [OnionFormat.keysForward, List.range_succ, List.map_append]
  exact List.getLast?_concat

/-- The two onions behind `form_onion`, and the plans of their hops.  SRC: src/lib.rs:623-684 -/
structure FormedBy (F : OnionFormat P) (fwd bwd : List Address) (payload : Bytes) (o : Onion P)
    (expected : ExpectedResponse P) (masterKey key : P.SymmetricKey) (replyTo : Address)
    (back₁ backₙ : Onion P) (plans : List (HopPlan P)) : Prop where
  lastKey : (OnionFormat.keysForward P masterKey fwd.length).getLast? = some key
  firstHop : bwd.head? = some replyTo
  forward : ∃ init last garbage, Assembled F (OnionFormat.keysForward P masterKey fwd.length) fwd
    ⟨.receiver, replyTo⟩ (.forward (innerPayload back₁ payload)) payload.length o expected.onion
    expected.tag init last garbage ∧ ∀ p ∈ init ++ [last], p ∈ plans
  backward : ∃ tag init last garbage, Assembled F
    (OnionFormat.keysBackward P masterKey bwd.length) bwd
    (OnionFormat.metaBackward fwd.length bwd.length)
    (.backward (randomPayload F key payload.length)) 0 back₁ backₙ tag init last garbage ∧
    ∀ p ∈ init ++ [last], p ∈ plans
  isSealed : ∀ p ∈ plans, p.Sealed F ∧ p.address ∈ fwd ++ bwd
  identifier : expected.identifier = backₙ.packedHeader

/-- INTERNAL: on two paths within the limit that are not empty, `form_onion` is its two calls of
`onionize`.  SRC: src/lib.rs:630-684 -/
theorem formOnion_eq [Rng R] {fwd bwd : List Address} (hfwd : fwd ≠ []) (hbwd : bwd ≠ [])
    (hfwd' : fwd.length ≤ F.pathLimit) (hbwd' : bwd.length ≤ F.pathLimit) (payload : Bytes)
    (rng : R) : ∃ key,
      (OnionFormat.keysForward P (P.randomKey rng).1 fwd.length).getLast? = some key ∧
      F.formOnion fwd bwd payload rng = (do
        let ((back₁, backₙ, _), rng₁) ←
          F.onionize (OnionFormat.keysBackward P (P.randomKey rng).1 bwd.length) bwd
            (OnionFormat.metaBackward fwd.length bwd.length)
            (.backward (randomPayload F key payload.length)) 0 (P.randomKey rng).2
        let ((o, oₙ, tag), rng₂) ←
          F.onionize (OnionFormat.keysForward P (P.randomKey rng).1 fwd.length) fwd
            ⟨.receiver, bwd.head hbwd⟩ (.forward (innerPayload back₁ payload)) payload.length rng₁
        return ((o, ⟨backₙ.packedHeader, oₙ, tag⟩), rng₂)) := by
  obtain ⟨key, hkey⟩ : ∃ key, (OnionFormat.keysForward P (P.randomKey rng).1 fwd.length).getLast? =
      some key := by
    obtain ⟨n, hn⟩ : ∃ n, fwd.length = n + 1 :=
      ⟨fwd.length - 1, (Nat.sub_add_cancel (List.length_pos_of_ne_nil hfwd)).symm⟩
    exact ⟨_, hn ▸ keysForward_getLast? P (P.randomKey rng).1 n⟩
  have hhead := List.head?_eq_some_head hbwd
  have hlast := List.getLast?_eq_some_getLast hbwd
  refine ⟨key, hkey, ?_⟩
  unfold OnionFormat.formOnion
  rw [if_neg (by omega), draw_bind_ok (show draw P.randomKey rng = .ok (P.randomKey rng) from rfl)]
  dsimp only
  rw [draw_bind_ok (draw_lift_ok (orPanic_eq_ok.mpr hlast)),
    draw_bind_ok (draw_lift_ok (orPanic_eq_ok.mpr hkey)), ← randomPayload]
  refine congrArg (F.onionize (OnionFormat.keysBackward P (P.randomKey rng).1 bwd.length) bwd
    (OnionFormat.metaBackward fwd.length bwd.length)
    (.backward (randomPayload F key payload.length)) 0 (P.randomKey rng).2 >>= ·) ?_
  funext ⟨⟨back₁, backₙ, tagB⟩, rng₁⟩
  dsimp only
  rw [draw_bind_ok (draw_lift_ok (orPanic_eq_ok.mpr hhead)), ← innerPayload]
  rfl

/-- On paths within the limit that are not empty and known to the key store, `form_onion` returns.
SRC: src/lib.rs:623-684 -/
theorem formOnion_total [Rng R] (hw : P.tagCodec.FixedWidth w) {fwd bwd : List Address}
    (hfwd : fwd ≠ []) (hbwd : bwd ≠ []) (hfwd' : fwd.length ≤ F.pathLimit)
    (hbwd' : bwd.length ≤ F.pathLimit) (hknownF : ∀ a ∈ fwd, (F.pki.get a).isSome)
    (hknownB : ∀ a ∈ bwd, (F.pki.get a).isSome) (payload : Bytes) (rng : R) :
    ∃ r, F.formOnion fwd bwd payload rng = .ok r := by
  obtain ⟨key, hkey, hform⟩ := formOnion_eq hfwd hbwd hfwd' hbwd' payload rng
  obtain ⟨back₁, backₙ, tagB, rng₁, hback⟩ := onionize_total hw hbwd
    (keysBackward_length P (P.randomKey rng).1 (List.length_pos_of_ne_nil hbwd)) hbwd' hknownB
    (OnionFormat.metaBackward fwd.length bwd.length)
    (.backward (randomPayload F key payload.length)) 0 (P.randomKey rng).2
  obtain ⟨o, oₙ, tag, rng₂, hforw⟩ := onionize_total hw hfwd
    (keysForward_length P (P.randomKey rng).1 fwd.length) hfwd' hknownF
    ⟨.receiver, bwd.head hbwd⟩ (.forward (innerPayload back₁ payload)) payload.length rng₁
  rw [hform, hback, ok_bind]
  dsimp only
  rw [hforw, ok_bind]
  exact ⟨_, rfl⟩

/-! ## What is encrypted under public keys -/

/-- The ciphertext of a plan beside the address that it is for. -/
def HopPlan.sealed (p : HopPlan P) : Address × Bytes := (p.address, p.cipher)

/-- The public-key ciphertexts that `onionize` makes, each beside the address that it is for.
SRC: src/lib.rs:448-460 -/
def pathSeals (F : OnionFormat P) (keys : List P.SymmetricKey) (hops : List Address)
    (hopMeta : Meta) (rng : R) : Exec (List (Address × Bytes)) := do
  let (ciphers, _) ← F.metaCiphers keys hops hopMeta rng
  return hops.zip ciphers

/-- The public-key ciphertexts that `form_onion` makes: those of the backward path, and those of
the forward path, with what is drawn behind the backward onion.  SRC: src/lib.rs:634-676 -/
def formSeals [Rng R] (F : OnionFormat P) (fwd bwd : List Address) (payload : Bytes) (rng : R) :
    Exec (List (Address × Bytes)) := do
  let (masterKey, rng) := P.randomKey rng
  let keysFwd := OnionFormat.keysForward P masterKey fwd.length
  let keysBwd := OnionFormat.keysBackward P masterKey bwd.length
  let metaBwd := OnionFormat.metaBackward fwd.length bwd.length
  let lastKey ← orPanic keysFwd.getLast?
  let replyTo ← orPanic bwd.head?
  let sealsBwd ← pathSeals F keysBwd bwd metaBwd rng
  let (_, rng) ← F.onionize keysBwd bwd metaBwd
    (.backward (randomPayload F lastKey payload.length)) 0 rng
  let sealsFwd ← pathSeals F keysFwd fwd ⟨.receiver, replyTo⟩ rng
  return sealsBwd ++ sealsFwd

/-- INTERNAL: the ciphertexts of a path are those of the plans of its onion.
SRC: src/lib.rs:448-460 -/
theorem pathSeals_eq {keys : List P.SymmetricKey} {hops : List Address} {hopMeta : Meta}
    {rng rng₁ : R} {plans : List (HopPlan P)}
    (hciphers : F.metaCiphers keys hops hopMeta rng = .ok (plans.map HopPlan.cipher, rng₁))
    (hhops : plans.map HopPlan.address = hops) :
    pathSeals F keys hops hopMeta rng = .ok (plans.map HopPlan.sealed) := by
  rw [pathSeals, hciphers, ok_bind, ← hhops]
  exact congrArg Except.ok (List.zip_map' ..)

/-- INTERNAL: what `form_onion` returns is made of two assembled onions, and its public-key
ciphertexts are those of their plans.  SRC: src/lib.rs:623-684 -/
theorem formedBy_of_formOnion [Rng R] (hP : P.Lawful) (hw : P.tagCodec.FixedWidth w)
    {fwd bwd : List Address} {payload : Bytes} {rng rng' : R} {o : Onion P}
    {expected : ExpectedResponse P} (hfwd : fwd ≠ []) (hbwd : bwd ≠ [])
    (hfwd' : fwd.length ≤ F.pathLimit) (hbwd' : bwd.length ≤ F.pathLimit)
    (h : F.formOnion fwd bwd payload rng = .ok ((o, expected), rng')) :
    ∃ key replyTo back₁ backₙ plans,
      FormedBy F fwd bwd payload o expected (P.randomKey rng).1 key replyTo back₁ backₙ plans ∧
      formSeals F fwd bwd payload rng = .ok (plans.map HopPlan.sealed) := by
  obtain ⟨key, hkey, hform⟩ := formOnion_eq hfwd hbwd hfwd' hbwd' payload rng
  rw [hform] at h
  obtain ⟨⟨⟨back₁, backₙ, tagB⟩, rng₁⟩, hback, h⟩ := bind_eq_ok.mp h
  obtain ⟨⟨⟨o', oₙ, tag⟩, rng₂⟩, hforw, h⟩ := bind_eq_ok.mp h
  obtain ⟨initB, lastB, garbageB, rngB, hciphersB, hB⟩ := assembled_of_onionize_ciphers hP hw hback
  obtain ⟨initF, lastF, garbageF, rngF, hciphersF, hF⟩ := assembled_of_onionize_ciphers hP hw hforw
  cases h
  have hhead := List.head?_eq_some_head hbwd
  refine ⟨key, bwd.head hbwd, back₁, backₙ, (initB ++ [lastB]) ++ (initF ++ [lastF]),
    ⟨hkey, hhead, ⟨initF, lastF, garbageF, hF, fun p hp => List.mem_append_right _ hp⟩,
      ⟨tagB, initB, lastB, garbageB, hB, fun p hp => List.mem_append_left _ hp⟩, ?_, rfl⟩, ?_⟩
  · intro p hp
    rcases List.mem_append.mp hp with hp | hp
    · refine ⟨hB.planned.isSealed p hp, List.mem_append_right fwd ?_⟩
      rw [← hB.planned.hops]
      exact List.mem_map_of_mem hp
    · refine ⟨hF.planned.isSealed p hp, List.mem_append_left bwd ?_⟩
      rw [← hF.planned.hops]
      exact List.mem_map_of_mem hp
  · have hsealsB := pathSeals_eq hciphersB hB.planned.hops
    have hsealsF := pathSeals_eq hciphersF hF.planned.hops
    unfold formSeals
    dsimp only
    rw [hkey, orPanic_some, ok_bind, hhead, orPanic_some, ok_bind, hsealsB, ok_bind, hback, ok_bind]
    dsimp only
    rw [hsealsF, ok_bind, ← List.map_append]
    rfl

/-- **`form_onion` returns**, and what it returns is made of two assembled onions.
SRC: src/lib.rs:623-684 -/
theorem formOnion_spec [Rng R] (hP : P.Lawful) (hw : P.tagCodec.FixedWidth w)
    {sk : Address → P.PrivateKey} {fwd bwd : List Address} (hfwd : Primitives.Routable F sk fwd)
    (hbwd : Primitives.Routable F sk bwd) (payload : Bytes) (rng : R) :
    ∃ o expected rng' masterKey key replyTo back₁ backₙ plans,
      F.formOnion fwd bwd payload rng = .ok ((o, expected), rng') ∧
      FormedBy F fwd bwd payload o expected masterKey key replyTo back₁ backₙ plans := by
  obtain ⟨⟨⟨o, expected⟩, rng'⟩, hform⟩ := formOnion_total hw hfwd.ne_nil hbwd.ne_nil hfwd.le
    hbwd.le (fun a ha => (hfwd.registered a ha).isSome) (fun a ha => (hbwd.registered a ha).isSome)
    payload rng
  obtain ⟨key, replyTo, back₁, backₙ, plans, hformed, -⟩ :=
    formedBy_of_formOnion hP hw hfwd.ne_nil hbwd.ne_nil hfwd.le hbwd.le hform
  exact ⟨o, expected, rng', _, key, replyTo, back₁, backₙ, plans, hform, hformed⟩

/-! ## Shapes -/

/-- The shape that a front has everywhere on a circuit: `max_path_length` blocks of the length
of a single header, and a forward section of the given length. -/
structure Front.Shape (F : OnionFormat P) (len : ℕ) (f : Front) : Prop where
  count : f.blocks.length = F.pathLimit
  block : ∀ bs ∈ f.blocks, bs.length = F.singleHeaderLength
  forward : f.forward.length = len

/-- An onion whose front has the shape is well-formed. -/
theorem Front.Shape.wellFormed {len : ℕ} {o : Onion P} (h : (front o).Shape F len) :
    o.WellFormed F :=
  ⟨(headerBytes_length o.header).symm.trans h.count, h.block⟩

/-- The front of a well-formed onion has the shape. -/
theorem shape_of_wellFormed {o : Onion P} (h : o.WellFormed F) :
    (front o).Shape F o.forward.length :=
  ⟨(headerBytes_length o.header).trans h.count, h.block, rfl⟩

/-- A layer that is taken off leaves the shape. -/
theorem FrontStep.shape (hw : P.tagCodec.FixedWidth w) {sk : P.PrivateKey} {f f' : Front}
    {key : P.SymmetricKey} {hopMeta : Meta} (h : FrontStep F sk f key hopMeta f') {len : ℕ}
    (hf : f.Shape F len) : f'.Shape F len := by
  let o : Onion P := f.onion ([], P.defaultTag)
  have hfront : front o = f := front_onion f _
  have hwf : o.WellFormed F := Front.Shape.wellFormed (hfront ▸ hf)
  obtain ⟨hn, hlen, -⟩ := wellFormed_of_unwrap hw hwf (h o hfront)
  have hshape := shape_of_wellFormed hn
  rw [front_onion] at hshape
  exact ⟨hshape.count, hshape.block, hlen.trans hf.forward⟩

/-- So all fronts on a way have the shape of the first one. -/
theorem shape_of_isChain (hw : P.tagCodec.FixedWidth w) {sk : Address → P.PrivateKey} {len : ℕ}
    {legs : List (Leg P)} (h : legs.IsChain (Link F sk))
    (hfirst : ∀ leg, legs.head? = some leg → leg.front.Shape F len) :
    ∀ leg ∈ legs, leg.front.Shape F len := by
  induction legs with
  | nil => simp
  | cons leg legs ih =>
      have hleg := hfirst leg rfl
      have hrest : ∀ leg' ∈ legs, leg'.front.Shape F len := by
        apply ih h.tail
        intro next hnext
        obtain ⟨legs', rfl⟩ := List.head?_eq_some_iff.mp hnext
        exact FrontStep.shape hw (List.isChain_cons_cons.mp h).1 hleg
      intro leg' hmem
      rcases List.mem_cons.mp hmem with rfl | hmem
      · exact hleg
      · exact hrest leg' hmem

/-- Put a layer on the forward section. -/
def coverForward (P : Primitives R) (key : P.SymmetricKey) (data : Bytes) : Bytes :=
  P.symmetricEncrypt (P.deriveKey .symEnc key) nonceFwd data

/-- What was taken off can be put back. -/
theorem coverForward_peelForward (hP : P.Lawful) (key : P.SymmetricKey) (data : Bytes) :
    coverForward P key (peelForward P key data) = data :=
  hP.symmetricEncrypt_symmetricDecrypt _ _ _

/-- What was put on can be taken off. -/
theorem peelForward_coverForward (hP : P.Lawful) (key : P.SymmetricKey) (data : Bytes) :
    peelForward P key (coverForward P key data) = data :=
  hP.symmetricDecrypt_symmetricEncrypt _ _ _

/-- The plans of a path cover the forward section with the layers of their keys. -/
theorem coverAll_coverPlan_snd (plans : List (HopPlan P)) (s : LayerState P) :
    (coverAll (coverPlan P) plans s).2 =
      coverAll (coverForward P) (plans.map HopPlan.key) s.2 := by
  induction plans with
  | nil => rfl
  | cons p plans ih =>
      rw [List.map_cons, coverAll_cons, coverAll_cons, ← ih]
      rfl

/-- Taking layers off keeps the length of the forward section. -/
theorem peelAll_peelForward_length (keys : List P.SymmetricKey) (data : Bytes) :
    (peelAll (peelForward P) keys data).length = data.length := by
  induction keys generalizing data with
  | nil => rfl
  | cons key keys ih => rw [peelAll_cons, ih, peelForward, P.symmetricDecrypt_length]

/-- Putting layers on keeps the length of the forward section. -/
theorem coverAll_coverForward_length (keys : List P.SymmetricKey) (data : Bytes) :
    (coverAll (coverForward P) keys data).length = data.length := by
  induction keys with
  | nil => rfl
  | cons key keys ih => rw [coverAll_cons, coverForward, P.symmetricEncrypt_length, ih]

section Assembled

variable {keys : List P.SymmetricKey} {hops : List Address} {hopMeta : Meta} {payload : Payload}
  {len : ℕ} {o₁ oₙ : Onion P} {tag : P.Tag} {init : List (HopPlan P)} {last : HopPlan P}
  {garbage : List Bytes}

/-- The forward section of an assembled onion is the one that the last hop will receive, under the
layers of the other hops.  SRC: src/lib.rs:484, 504-507, 516-523 -/
theorem Assembled.forward
    (h : Assembled F keys hops hopMeta payload len o₁ oₙ tag init last garbage) :
    o₁.forward = coverAll (coverForward P) (init.map HopPlan.key) oₙ.forward := by
  rw [← coverAll_coverPlan_snd init (oₙ.header, oₙ.forward), h.layers]

/-- INTERNAL: the forward section of an assembled onion, for each kind of payload.
SRC: src/lib.rs:482-523 -/
theorem Assembled.forward_eq (hP : P.Lawful)
    (h : Assembled F keys hops hopMeta payload len o₁ oₙ tag init last garbage) :
    match payload with
    | .forward data => o₁.forward = coverAll (coverForward P) keys data
    | .backward data => o₁.forward = data := by
  cases payload with
  | forward data =>
      obtain ⟨hopen, -⟩ := h.carries
      have hinner : oₙ.forward = coverForward P last.key data := by
        rw [← coverForward_peelForward hP last.key oₙ.forward]
        exact congrArg (coverForward P last.key) hopen
      have hkeys : keys = init.map HopPlan.key ++ [last.key] := by
        rw [← h.planned.keys, List.map_append]
        rfl
      change o₁.forward = coverAll (coverForward P) keys data
      rw [h.forward, hinner, hkeys, coverAll, coverAll, List.foldr_append]
      rfl
  | backward data =>
      have hpeeled : oₙ.forward = peelAll (peelForward P) (init.map HopPlan.key) data := h.carries
      change o₁.forward = data
      rw [h.forward, hpeeled]
      exact coverAll_peelAll (coverForward_peelForward hP) _ _

end Assembled

end Eror.Analysis
