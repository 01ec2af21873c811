import Eror.Analysis.FillerTable

/-!
# The tower of layers

`onionize` puts the layers on from the inside out and the hops take them off from the outside
in.  What a hop receives is described by a `Leg` of the path, and consecutive legs are linked
when the hop of the first unwraps what it receives to what the second receives, whatever the
backward section (`Link`).  `isChain_towerLegs` is the induction: if the innermost header ends
in the predicted blocks of all keys, every layer ends in those of the keys outside of it, so
each layer appends the block that was dropped.
-/

set_option autoImplicit false

namespace Eror.Analysis

open Library Model

variable {R : Type} {P : Primitives R} {w c : ℕ} {F : OnionFormat P}

/-! ## Unwrapping as a step on fronts -/

/-- The holder of the private key unwraps every onion that shows `f`, whatever its backward
section: it obtains the key and the meta-information, and an onion that shows `f'`. -/
def FrontStep (F : OnionFormat P) (sk : P.PrivateKey) (f : Front) (key : P.SymmetricKey)
    (hopMeta : Meta) (f' : Front) : Prop :=
  ∀ o : Onion P, front o = f →
    F.unwrap sk o = .ok (key, hopMeta, f'.onion (peelBackward P key o.backward))

/-- An authentic layer of an onion with as many blocks as the limit is taken off its front.
SRC: src/lib.rs:545-575 -/
theorem frontStep_of_authentic (hw : P.tagCodec.FixedWidth w) {sk : P.PrivateKey} {o : Onion P}
    {key : P.SymmetricKey} {hopMeta : Meta} (h : Authentic P sk o key hopMeta)
    (hlen : o.header.length = F.pathLimit) :
    FrontStep F sk (front o) key hopMeta (peelFront F key (front o)) := by
  intro o' hfront
  have hblocks : headerBytes o'.header = headerBytes o.header := congrArg Front.blocks hfront
  have hlen' : o'.header.length = F.pathLimit := by
    rw [← headerBytes_length, hblocks, headerBytes_length, hlen]
  have hpos : 0 < F.pathLimit := by
    obtain ⟨-, ⟨first, rest, -, hh, -⟩, -⟩ := h
    rw [← hlen, hh]
    exact Nat.succ_pos _
  have hrounds : rounds F < o'.header.length := by rw [rounds_of_pos hpos]; omega
  rw [unwrap_of_authentic hw (h.of_front_eq hfront) hrounds, peelOnion_of_shape key hpos hlen',
    hfront]

/-! ## Legs -/

/-- What arrives at a node of a path: the key that the first block holds for it, and the front
of the onion. -/
structure Leg (P : Primitives R) where
  node : Address
  key : P.SymmetricKey
  front : Front

/-- The node of the first leg passes on to the second one what arrives there. -/
def Link (F : OnionFormat P) (sk : Address → P.PrivateKey) (leg next : Leg P) : Prop :=
  FrontStep F (sk leg.node) leg.front leg.key ⟨.hop, next.node⟩ next.front

/-! ## The loop of `wrap`s -/

/-- What the loop carries: the blocks and the forward section. -/
abbrev LayerState (P : Primitives R) := List (Header P) × Bytes

/-- The front that it stands for. -/
def stateFront (s : LayerState P) : Front := ⟨headerBytes s.1, s.2⟩

/-- One round of the loop: drop the last block, put on the layer of the hop.
SRC: src/lib.rs:520-523 -/
def coverPlan (P : Primitives R) (p : HopPlan P) (s : LayerState P) : LayerState P :=
  wrap P p.key p.cipher s.1.dropLast s.2

/-- The key of the layer. -/
def HopPlan.layerKey (p : HopPlan P) : P.SymmetricKey := P.deriveKey .symEnc p.key

/-- The loop puts on the layers of all hops but the last.  SRC: src/lib.rs:516-523 -/
theorem wrapAll_eq (plans : List (HopPlan P)) (headers : List (Header P)) (fwd : Bytes) :
    OnionFormat.wrapAll P (plans.map HopPlan.key) (plans.map HopPlan.cipher) headers fwd =
      coverAll (coverPlan P) plans.dropLast (headers, fwd) := by
  rw [OnionFormat.wrapAll, List.zip_map', List.foldl_reverse, ← List.map_dropLast,
    List.foldr_map]
  rfl

/-- A round shifts the first block in.  SRC: src/lib.rs:520-523 -/
theorem headerBytes_coverPlan (p : HopPlan P) (s : LayerState P) :
    headerBytes (coverPlan P p s).1 = shiftIn (encBlock P p.layerKey)
      (wrapBlock P p.key p.cipher s.1.dropLast s.2) (headerBytes s.1) :=
  headerBytes_wrap ..

/-- INTERNAL: the invariant of the loop: the header has as many blocks as the limit, and ends in
the predicted blocks of the keys whose layers are still to come. -/
structure Filled (F : OnionFormat P) (outer : List (HopPlan P)) (s : LayerState P) : Prop where
  length : (headerBytes s.1).length = F.pathLimit
  drop : (headerBytes s.1).drop (F.pathLimit - outer.length) =
    fillers F (outer.map HopPlan.layerKey)

/-- The last key makes the last round of the fillers. -/
theorem fillers_append_singleton (outer : List (HopPlan P)) (p : HopPlan P) :
    fillers F ((outer ++ [p]).map HopPlan.layerKey) = fillRow F.pathLimit (decBlock P p.layerKey)
      (F.fillBlock p.layerKey) (fillers F (outer.map HopPlan.layerKey)) := by
  rw [List.map_append, List.map_singleton]
  exact fillRows_append_singleton ..

/-- INTERNAL: one round keeps the invariant.  SRC: src/lib.rs:520-523 -/
theorem filled_coverPlan (hP : P.Lawful) {outer : List (HopPlan P)} {p : HopPlan P}
    {s : LayerState P} (h : Filled F (outer ++ [p]) s) (hlt : outer.length < F.pathLimit) :
    Filled F outer (coverPlan P p s) := by
  have hlen : (fillers F (outer.map HopPlan.layerKey)).length = outer.length := by simp
  constructor
  · rw [headerBytes_coverPlan, shiftIn_length, h.length]
    omega
  · have hdrop := h.drop
    rw [fillers_append_singleton, List.length_append, List.length_singleton, ← hlen] at hdrop
    rw [headerBytes_coverPlan, ← hlen]
    exact drop_shiftIn_fillRow _ (encBlock_decBlock hP _) (by rwa [hlen]) hdrop

/-- The invariant after several rounds. -/
theorem filled_coverAll (hP : P.Lawful) (outer : List (HopPlan P)) {inner : List (HopPlan P)}
    {s : LayerState P} (h : Filled F (outer ++ inner) s)
    (hlt : (outer ++ inner).length ≤ F.pathLimit) :
    Filled F outer (coverAll (coverPlan P) inner s) := by
  induction inner generalizing outer with
  | nil => rwa [List.append_nil] at h
  | cons p inner ih =>
      have hassoc : outer ++ p :: inner = outer ++ [p] ++ inner := by simp
      rw [hassoc] at h hlt
      refine filled_coverPlan hP (ih (outer ++ [p]) h hlt) ?_
      simp only [List.length_append, List.length_singleton] at hlt
      omega

/-! ## One layer -/

/-- The hop decrypts the ciphertext of the plan to what was encrypted.  SRC: src/lib.rs:552 -/
def HopPlan.Opens (sk : Address → P.PrivateKey) (p : HopPlan P) : Prop :=
  P.asymmetricDecrypt (sk p.address) p.cipher = .ok ((keyMetaCodec P).encode (p.key, p.hopMeta))

/-- A ciphertext that was encrypted to a registered hop opens. -/
theorem HopPlan.Sealed.opens {sk : Address → P.PrivateKey} {p : HopPlan P} (h : p.Sealed F)
    (hreg : Primitives.Registered F sk p.address) (hW : P.Widths w c) : p.Opens sk := by
  obtain ⟨pk, rng, hget, hcipher⟩ := h
  obtain ⟨pk', hget', hpair⟩ := hreg
  rw [hget] at hget'
  obtain rfl := Option.some.inj hget'
  rw [HopPlan.Opens, hcipher]
  exact hpair rng _ (keyMeta_length_lt hW _)

/-- A ciphertext is a vector. -/
theorem HopPlan.Sealed.length_lt {p : HopPlan P} (h : p.Sealed F) (hW : P.Widths w c) :
    p.cipher.length < 2 ^ 64 := by
  obtain ⟨pk, rng, -, hcipher⟩ := h
  rw [hcipher]
  exact cipher_length_lt hW rng pk _

/-- **One layer.**  The hop that a plan is sealed to unwraps the layer, provided the block it
appends is the one that was dropped.  SRC: src/lib.rs:386-414, 545-575 -/
theorem frontStep_coverPlan (hP : P.Lawful) (hW : P.Widths w c) {sk : Address → P.PrivateKey}
    {p : HopPlan P} (hsealed : p.Sealed F) (hopens : p.Opens sk) {outer : List (HopPlan P)}
    {s : LayerState P} (h : Filled F (outer ++ [p]) s) (hlt : outer.length < F.pathLimit) :
    FrontStep F (sk p.address) (stateFront (coverPlan P p s)) p.key p.hopMeta (stateFront s) := by
  have hne : headerBytes s.1 ≠ [] := by
    rw [← List.length_pos_iff, h.length]
    omega
  have hlast : (headerBytes s.1).getLast hne = F.fillBlock p.layerKey := by
    have hdrop := h.drop
    have hlen : (fillers F (outer.map HopPlan.layerKey)).length = outer.length := by simp
    rw [fillers_append_singleton, List.length_append, List.length_singleton, ← hlen] at hdrop
    exact getLast_of_drop_fillRow hne hdrop
  let o : Onion P := wrapOnion P p.key p.cipher s.1.dropLast s.2 ([], P.defaultTag)
  have hauth : Authentic P (sk p.address) o p.key p.hopMeta :=
    authentic_tagged hW hopens (hsealed.length_lt hW) _ _ _
  have hlen : o.header.length = F.pathLimit := by
    have hcover := (filled_coverPlan hP h hlt).length
    rwa [headerBytes_length] at hcover
  have hstep := frontStep_of_authentic hW.tag hauth hlen
  rwa [peelFront_wrap hP F p.key p.cipher s.2 hne hlast] at hstep

/-! ## The tower -/

/-- The legs of a path: each plan with the front its hop receives, where `s` is what the last
hop receives. -/
def towerLegs (P : Primitives R) (s : LayerState P) : List (HopPlan P) → List (Leg P)
  | [] => []
  | p :: plans =>
      ⟨p.address, p.key, stateFront (coverAll (coverPlan P) (p :: plans).dropLast s)⟩ ::
        towerLegs P s plans

/-- The legs lead to the addresses of the plans. -/
theorem towerLegs_map_node (s : LayerState P) (plans : List (HopPlan P)) :
    (towerLegs P s plans).map Leg.node = plans.map HopPlan.address := by
  induction plans with
  | nil => rfl
  | cons p plans ih => rw [towerLegs, List.map_cons, List.map_cons, ih]

/-- The keys of the legs are those of the plans. -/
theorem towerLegs_map_key (s : LayerState P) (plans : List (HopPlan P)) :
    (towerLegs P s plans).map Leg.key = plans.map HopPlan.key := by
  induction plans with
  | nil => rfl
  | cons p plans ih => rw [towerLegs, List.map_cons, List.map_cons, ih]

/-- The last leg is the one that the loop started with. -/
theorem towerLegs_append_singleton (s : LayerState P) (plans : List (HopPlan P)) (p : HopPlan P) :
    ∃ legs, towerLegs P s (plans ++ [p]) = legs ++ [⟨p.address, p.key, stateFront s⟩] := by
  induction plans with
  | nil => exact ⟨[], rfl⟩
  | cons q plans ih =>
      obtain ⟨legs, hlegs⟩ := ih
      exact ⟨_ :: legs, by rw [List.cons_append, towerLegs, hlegs, List.cons_append]⟩

/-- **Consecutive legs are linked.**  SRC: src/lib.rs:423-538, 545-575 -/
theorem isChain_towerLegs (hP : P.Lawful) (hW : P.Widths w c) {sk : Address → P.PrivateKey}
    (outer plans : List (HopPlan P)) {s : LayerState P} (h : Filled F (outer ++ plans.dropLast) s)
    (hlt : (outer ++ plans).length ≤ F.pathLimit) (hsealed : ∀ p ∈ plans, p.Sealed F)
    (hopens : ∀ p ∈ plans, p.Opens sk)
    (hrelays : plans.IsChain HopPlan.Relays) : (towerLegs P s plans).IsChain (Link F sk) := by
  induction plans generalizing outer with
  | nil => exact List.isChain_nil
  | cons p plans ih =>
      cases plans with
      | nil => exact List.isChain_singleton _
      | cons q plans =>
          have hassoc : outer ++ p :: (q :: plans).dropLast =
            outer ++ [p] ++ (q :: plans).dropLast := by simp
          have hlt' : (outer ++ [p] ++ (q :: plans)).length ≤ F.pathLimit := by
            simpa using hlt
          rw [List.dropLast_cons_cons, hassoc] at h
          have hinner := filled_coverAll hP (outer ++ [p]) h (by
            simp only [List.length_append, List.length_dropLast] at hlt' ⊢
            omega)
          have hrelay : p.hopMeta = ⟨.hop, q.address⟩ := (List.isChain_cons_cons.mp hrelays).1
          have hstep := frontStep_coverPlan hP hW (hsealed p (by simp)) (hopens p (by simp)) hinner
            (by simp only [List.length_append, List.length_cons] at hlt; omega)
          rw [hrelay] at hstep
          have htail := ih (outer ++ [p]) h hlt' (fun p' hp' => hsealed p' (by simp [hp']))
            (fun p' hp' => hopens p' (by simp [hp'])) (List.isChain_cons_cons.mp hrelays).2
          rw [towerLegs] at htail
          rw [towerLegs, towerLegs]
          exact List.isChain_cons_cons.mpr ⟨hstep, htail⟩

end Eror.Analysis
