import Eror.Analysis.OnionizeSpec
import Eror.Interface.SamplePrimitives

/-!
# The predicted last-hop onion is the real one

`onionize` returns beside the onion for the first hop a prediction of the onion that arrives at
the last one.  The tower of layers turns an assembled onion into a path of linked legs
(`path_of_assembled`), and unwrapping along linked legs goes from the first front to the last
(`unwrapPath_of_isChain`).
-/

set_option autoImplicit false

namespace Eror.Analysis

open Library Model

variable {R : Type} {P : Primitives R} {w c : ℕ} {F : OnionFormat P}

/-! ## From assembled onions to legs -/

/-- The legs `pre ++ [last]` lead over the given hops from `o₁` to `oₙ`, and the last hop opens
what arrives there. -/
structure Path (F : OnionFormat P) (sk : Address → P.PrivateKey) (keys : List P.SymmetricKey)
    (hops : List Address) (hopMeta : Meta) (o₁ oₙ : Onion P) (pre : List (Leg P)) (last : Leg P) :
    Prop where
  node : (pre ++ [last]).map Leg.node = hops
  key : (pre ++ [last]).map Leg.key = keys
  chain : (pre ++ [last]).IsChain (Link F sk)
  first : (pre ++ [last]).head?.map Leg.front = some (front o₁)
  last_front : last.front = front oₙ
  accept : FrontStep F (sk last.node) last.front last.key hopMeta
    (peelFront F last.key last.front)

section Assembled

variable {keys : List P.SymmetricKey} {hops : List Address} {hopMeta : Meta} {payload : Payload}
  {len : ℕ} {o₁ oₙ : Onion P} {tag : P.Tag} {init : List (HopPlan P)} {last : HopPlan P}
  {garbage : List Bytes}

/-- INTERNAL: the innermost header has the right number of blocks and ends in the predicted
ones.  SRC: src/lib.rs:462-518 -/
theorem Assembled.filled
    (h : Assembled F keys hops hopMeta payload len o₁ oₙ tag init last garbage) :
    Filled F init (oₙ.header, oₙ.forward) := by
  obtain ⟨first, hblocks⟩ : ∃ first, headerBytes oₙ.header =
      first :: (garbage ++ fillers F (init.map HopPlan.layerKey)) := by
    rw [h.header]
    exact ⟨_, congrArg (List.cons _) (headerBytes_map_raw _)⟩
  have hlimit := h.limit
  have hgarbage := h.garbage_length
  constructor
  · rw [hblocks, List.length_cons, List.length_append, fillers_length, List.length_map]
    omega
  · rw [hblocks, show F.pathLimit - init.length = garbage.length + 1 by omega,
      List.drop_succ_cons, List.drop_left]

/-- The plans of an assembled onion open when its hops are registered. -/
theorem Assembled.opens (hW : P.Widths w c) {sk : Address → P.PrivateKey}
    (hreg : ∀ a ∈ hops, Primitives.Registered F sk a)
    (h : Assembled F keys hops hopMeta payload len o₁ oₙ tag init last garbage) :
    ∀ p ∈ init ++ [last], p.Opens sk := by
  intro p hp
  refine (h.planned.isSealed p hp).opens (hreg _ ?_) hW
  rw [← h.planned.hops]
  exact List.mem_map_of_mem hp

/-- The last hop accepts the predicted onion.  SRC: src/lib.rs:511-518, 545-559 -/
theorem Assembled.authentic (hW : P.Widths w c) {sk : Address → P.PrivateKey}
    (hopens : ∀ p ∈ init ++ [last], p.Opens sk)
    (h : Assembled F keys hops hopMeta payload len o₁ oₙ tag init last garbage) :
    Authentic P (sk last.address) oₙ last.key hopMeta := by
  have hmem : last ∈ init ++ [last] := by simp
  have hauth := authentic_tagged hW (hopens last hmem) ((h.planned.isSealed last hmem).length_lt hW)
    ((garbage ++ fillers F (init.map HopPlan.layerKey)).map .raw) oₙ.forward oₙ.backward
  rw [← h.header, h.hopMeta] at hauth
  exact hauth

/-- **An assembled onion is a path of linked legs**, when its ciphertexts open.
SRC: src/lib.rs:423-538 -/
theorem path_of_opens (hP : P.Lawful) (hW : P.Widths w c) {sk : Address → P.PrivateKey}
    (hopens : ∀ p ∈ init ++ [last], p.Opens sk)
    (h : Assembled F keys hops hopMeta payload len o₁ oₙ tag init last garbage) :
    ∃ pre lastLeg, Path F sk keys hops hopMeta o₁ oₙ pre lastLeg := by
  have hfilled := h.filled
  obtain ⟨pre, hpre⟩ := towerLegs_append_singleton (P := P) (oₙ.header, oₙ.forward) init last
  have hchain := isChain_towerLegs (s := (oₙ.header, oₙ.forward)) hP hW []
    (init ++ [last]) (by rwa [List.nil_append, List.dropLast_concat])
    (by
      have := h.limit
      rw [List.nil_append, List.length_append, List.length_singleton]
      omega)
    h.planned.isSealed hopens h.planned.relays
  have hhead : (towerLegs P (oₙ.header, oₙ.forward) (init ++ [last])).head?.map Leg.front =
      some (front o₁) := by
    have hfirst : stateFront (coverAll (coverPlan P) init (oₙ.header, oₙ.forward)) = front o₁ := by
      rw [h.layers]
      rfl
    cases init with
    | nil => exact congrArg some hfirst
    | cons p init =>
        rw [← hfirst, List.cons_append, towerLegs, List.head?_cons, Option.map_some,
          ← List.cons_append, List.dropLast_concat]
  have hlen : oₙ.header.length = F.pathLimit := by
    have := hfilled.length
    rwa [headerBytes_length] at this
  refine ⟨pre, _, ?_, ?_, hpre ▸ hchain, hpre ▸ hhead, rfl, ?_⟩
  · rw [← hpre, towerLegs_map_node, h.planned.hops]
  · rw [← hpre, towerLegs_map_key, h.planned.keys]
  · exact frontStep_of_authentic hW.tag (h.authentic hW hopens) hlen

/-- An assembled onion on registered hops is a path of linked legs.  SRC: src/lib.rs:423-538 -/
theorem path_of_assembled (hP : P.Lawful) (hW : P.Widths w c) {sk : Address → P.PrivateKey}
    (hreg : ∀ a ∈ hops, Primitives.Registered F sk a)
    (h : Assembled F keys hops hopMeta payload len o₁ oₙ tag init last garbage) :
    ∃ pre lastLeg, Path F sk keys hops hopMeta o₁ oₙ pre lastLeg :=
  path_of_opens hP hW (h.opens hW hreg) h

end Assembled

/-! ## Unwrapping along a path -/

/-- Apply `unwrap` with each of the private keys in turn.  Returns what each step returned
beside the onion, and the last onion. -/
def unwrapPath (F : OnionFormat P) :
    List P.PrivateKey → Onion P → Exec (List (P.SymmetricKey × Meta) × Onion P)
  | [], o => .ok ([], o)
  | sk :: sks, o => do
      let (key, hopMeta, o) ← F.unwrap sk o
      let (opened, o) ← unwrapPath F sks o
      return ((key, hopMeta) :: opened, o)

/-- INTERNAL: **along linked legs** each node but the last obtains its key and the next node, the
last front is reached, and the backward section loses a layer at each step. -/
theorem unwrapPath_of_isChain {sk : Address → P.PrivateKey} (pre : List (Leg P)) (last : Leg P)
    (h : (pre ++ [last]).IsChain (Link F sk)) {o : Onion P}
    (ho : (pre ++ [last]).head?.map Leg.front = some (front o)) :
    ∃ o', unwrapPath F (pre.map fun leg => sk leg.node) o =
        .ok ((pre.map Leg.key).zip (((pre ++ [last]).map Leg.node).tail.map (Meta.mk .hop)), o') ∧
      front o' = last.front ∧
      o'.backward = peelAll (peelBackward P) (pre.map Leg.key) o.backward := by
  induction pre generalizing o with
  | nil =>
      refine ⟨o, rfl, ?_, rfl⟩
      simpa using ho.symm
  | cons leg pre ih =>
      obtain ⟨next, rest, hnext⟩ : ∃ next rest, pre ++ [last] = next :: rest :=
        List.exists_cons_of_ne_nil (by simp)
      rw [List.cons_append, hnext] at h ho
      obtain ⟨hlink, htail⟩ := List.isChain_cons_cons.mp h
      have hstep := hlink o (Option.some.inj ho).symm
      rw [← hnext] at htail
      obtain ⟨o', hrun, hfront, hbackward⟩ := ih htail
        (o := next.front.onion (peelBackward P leg.key o.backward)) (by rw [hnext]; simp)
      refine ⟨o', ?_, hfront, hbackward⟩
      rw [List.map_cons, unwrapPath, hstep, ok_bind]
      dsimp only
      rw [hrun, ok_bind, List.cons_append, hnext]
      rfl

/-- The legs before the last one have the keys and nodes of all hops but the last. -/
theorem Path.dropLast {sk : Address → P.PrivateKey} {keys : List P.SymmetricKey}
    {hops : List Address} {hopMeta : Meta} {o₁ oₙ : Onion P} {pre : List (Leg P)} {last : Leg P}
    (h : Path F sk keys hops hopMeta o₁ oₙ pre last) :
    pre.map Leg.key = keys.dropLast ∧ (pre.map fun leg => sk leg.node) = hops.dropLast.map sk ∧
      hops.getLast? = some last.node ∧ keys.getLast? = some last.key := by
  rw [← h.node, ← h.key]
  simp [Function.comp_def]

/-- The first hop of a path unwraps whatever shows the front of the first onion. -/
theorem Path.first_step {sk : Address → P.PrivateKey} {keys : List P.SymmetricKey}
    {hops : List Address} {hopMeta : Meta} {o₁ oₙ : Onion P} {pre : List (Leg P)} {last : Leg P}
    (h : Path F sk keys hops hopMeta o₁ oₙ pre last) :
    ∃ first key m f', hops.head? = some first ∧ FrontStep F (sk first) (front o₁) key m f' := by
  have hfirst := h.first
  have hnode := h.node
  cases pre with
  | nil =>
      have hfront : last.front = front o₁ := Option.some.inj hfirst
      refine ⟨last.node, last.key, hopMeta, _, ?_, hfront ▸ h.accept⟩
      rw [← hnode]
      rfl
  | cons leg pre =>
      have hfront : leg.front = front o₁ := Option.some.inj hfirst
      obtain ⟨next, rest, hnext⟩ : ∃ next rest, pre ++ [last] = next :: rest :=
        List.exists_cons_of_ne_nil (by simp)
      have hchain := h.chain
      rw [List.cons_append, hnext] at hchain
      have hlink : FrontStep F (sk leg.node) leg.front leg.key ⟨.hop, next.node⟩ next.front :=
        (List.isChain_cons_cons.mp hchain).1
      refine ⟨leg.node, leg.key, _, _, ?_, hfront ▸ hlink⟩
      rw [← hnode]
      rfl

/-- **The predicted last-hop onion is the real one.**  Whatever `onionize` returns on registered
hops: unwrapping the first onion at all hops but the last succeeds, each obtains its key and
the following address, and the onion they arrive at has the predicted header and forward
section; the last hop opens it, obtains its key and the given meta-information.  For a forward
payload the backward section is the predicted one too, and the last hop is left with the
expected tag.  SRC: src/lib.rs:423-538, 545-575 -/
theorem onionize_predicts [Rng R] (hP : P.Lawful) (hW : P.Widths w c) (F : OnionFormat P)
    (sk : Address → P.PrivateKey) (keys : List P.SymmetricKey) (hops : List Address)
    (hreg : ∀ a ∈ hops, Primitives.Registered F sk a) (hopMeta : Meta) (payload : Payload)
    (len : ℕ) (rng rng' : R) (o₁ oₙ : Onion P) (tag : P.Tag)
    (h : F.onionize keys hops hopMeta payload len rng = .ok ((o₁, oₙ, tag), rng')) :
    ∃ lastHop lastKey o final, hops.getLast? = some lastHop ∧ keys.getLast? = some lastKey ∧
      unwrapPath F (hops.dropLast.map sk) o₁ =
        .ok (keys.dropLast.zip (hops.tail.map (Meta.mk .hop)), o) ∧
      headerBytes o.header = headerBytes oₙ.header ∧ o.forward = oₙ.forward ∧
      F.unwrap (sk lastHop) o = .ok (lastKey, hopMeta, final) ∧
      ∀ data, payload = .forward data → o.backward = oₙ.backward ∧ final.backward.2 = tag := by
  obtain ⟨init, lastPlan, garbage, hassembled⟩ := assembled_of_onionize hP hW.tag h
  obtain ⟨pre, last, hpath⟩ := path_of_assembled hP hW hreg hassembled
  obtain ⟨hkeys, hsks, hlastHop, hlastKey⟩ := hpath.dropLast
  obtain ⟨o, hrun, hfront, hbackward⟩ := unwrapPath_of_isChain pre last hpath.chain hpath.first
  rw [hsks, hkeys, hpath.node] at hrun
  have hopen := hpath.accept o hfront
  have hfront' : front o = front oₙ := hfront.trans hpath.last_front
  refine ⟨last.node, last.key, o, _, hlastHop, hlastKey, hrun, congrArg Front.blocks hfront',
    congrArg Front.forward hfront', hopen, ?_⟩
  rintro data rfl
  obtain ⟨-, -, -, hbwdN, htag⟩ := hassembled.carries
  have hinit : init.map HopPlan.key = pre.map Leg.key := by
    rw [hkeys, hassembled.keys_dropLast]
  have hlast : lastPlan.key = last.key :=
    Option.some.inj (hassembled.keys_getLast?.symm.trans hlastKey)
  have hsame : o.backward = oₙ.backward := by
    rw [hbackward, ← hinit]
    exact hbwdN.symm
  refine ⟨hsame, ?_⟩
  rw [hsame, ← hlast]
  exact htag.symm

/-- Two hops with a forward payload of three bytes. -/
theorem onionize_predicts_sample : ∃ o₁ oₙ tag rng',
    (sampleFormat 3).onionize [List.Vector.replicate 16 1, List.Vector.replicate 16 2]
      [sampleAddress 7, sampleAddress 8] ⟨.receiver, sampleAddress 9⟩ (.forward [1, 2, 3]) 3 0 =
        .ok ((o₁, oₙ, tag), rng') ∧
      ∃ opened o, unwrapPath (sampleFormat 3) [samplePrivateKey (sampleAddress 7)] o₁ =
        .ok (opened, o) ∧ o.forward = oₙ.forward := by
  let keys : List samplePrimitives.SymmetricKey :=
    [List.Vector.replicate 16 1, List.Vector.replicate 16 2]
  have hne : [sampleAddress 7, sampleAddress 8] ≠ [] := List.cons_ne_nil _ _
  have hlen : keys.length = [sampleAddress 7, sampleAddress 8].length := rfl
  obtain ⟨o₁, oₙ, tag, rng', h⟩ := onionize_total (F := sampleFormat 3)
    (Codec.array_fixedWidth 16) hne hlen (by decide) (fun _ _ => rfl)
    ⟨.receiver, sampleAddress 9⟩ (.forward [1, 2, 3]) 3 (0 : ℕ)
  obtain ⟨-, -, o, -, -, -, hrun, -, hforward, -⟩ := onionize_predicts samplePrimitives_lawful
    samplePrimitives_widths (sampleFormat 3) samplePrivateKey _ _
    (fun a _ => sampleFormat_registered 3 a) _ _ _ _ _ o₁ oₙ tag h
  exact ⟨o₁, oₙ, tag, rng', h, _, o, hrun, hforward⟩

end Eror.Analysis
