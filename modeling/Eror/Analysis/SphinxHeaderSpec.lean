import Eror.Analysis.SphinxRouting

/-!
# Making and processing a Sphinx header

The sender multiplies its secret by one blinding factor after the other, and each hop multiplies
the point in the header by its own; both arrive at the same shared secrets (`dh_comm`,
`blind_publicKey`).  With the tower of `SphinxRouting` each hop finds the one after it
(`process_forward`) and the last one the destination (`process_final`).

`SphinxHeader.new` takes a route of one to five hops with as many delays, and panics on any other
(`headerNew_spec`, `headerNew_panics`).
-/

set_option autoImplicit false

namespace Eror.Analysis.Sphinx

open Library Model.Sphinx
open Model (Rng)

variable {C : Crates}

/-! ## Keys -/

/-- A hop and the sender share the same secret. -/
theorem dh_comm (hC : C.Lawful) (a b : PrivateKey C) :
    a.diffieHellman b.publicKey = b.diffieHellman a.publicKey := by
  change C.mul a.scalar (C.mulBase b.scalar) = C.mul b.scalar (C.mulBase a.scalar)
  rw [hC.mul_mulBase, hC.mul_mulBase, mul_comm]

/-- A hop blinds the point as the sender blinds its secret.  SRC: sphinx/src/header/mod.rs:236-245,
sphinx/src/header/keys.rs:128-138 -/
theorem blind_publicKey (hC : C.Lawful) (secret : PrivateKey C)
    (blindingFactor : Arr blindingFactorSize) :
    SphinxHeader.blindTheSharedSecret C secret.publicKey blindingFactor =
      (secret.mulAssign (C.fromBytesModOrder blindingFactor)).publicKey :=
  hC.mul_mulBase _ _

variable (C) in
/-- The keys of the hops of a route, for a sender's secret. -/
def hopKeys : PrivateKey C → List Node → List RoutingKeys
  | _, [] => []
  | secret, node :: route =>
      let keys := RoutingKeys.derive C (secret.diffieHellman node.pubKey)
      keys :: hopKeys (secret.mulAssign (C.fromBytesModOrder keys.blindingFactor)) route

/-- There are keys for each hop. -/
@[simp] theorem hopKeys_length (secret : PrivateKey C) (route : List Node) :
    (hopKeys C secret route).length = route.length := by
  induction route generalizing secret with
  | nil => rfl
  | cons node route ih => rw [hopKeys, List.length_cons, List.length_cons, ih]

/-- INTERNAL: the condition inside the loop over the route is true in every round.
SRC: sphinx/src/header/keys.rs:115-142 -/
theorem foldl_deriveStep (length : ℕ) (route : List Node) (start : ℕ)
    (h : start + route.length ≤ length) (secret : PrivateKey C) (keys : List RoutingKeys) :
    ((route.zipIdx start).foldl (KeyMaterial.deriveStep C length) (secret, keys)).2 =
      keys ++ hopKeys C secret route := by
  induction route generalizing start secret keys with
  | nil => rw [hopKeys, List.append_nil, List.zipIdx_nil, List.foldl_nil]
  | cons node route ih =>
      rw [List.length_cons] at h
      have hstep : KeyMaterial.deriveStep C length (secret, keys) (node, start) =
          (secret.mulAssign (C.fromBytesModOrder (RoutingKeys.derive C
            (secret.diffieHellman node.pubKey)).blindingFactor),
          keys ++ [RoutingKeys.derive C (secret.diffieHellman node.pubKey)]) := by
        rw [KeyMaterial.deriveStep]
        exact congrArg (·, _) (if_pos (by omega))
      rw [List.zipIdx_cons, List.foldl_cons, hstep, ih (start + 1) (by omega), hopKeys,
        List.append_assoc]
      rfl

/-- The keys that are derived in the loop are those of the hops.
SRC: sphinx/src/header/keys.rs:110-148 -/
theorem keyMaterial_routingKeys (secret : PrivateKey C) (route : List Node) :
    (KeyMaterial.derive C route secret).routingKeys = hopKeys C secret route := by
  rw [KeyMaterial.derive, foldl_deriveStep _ _ 0 (by omega), List.nil_append]

/-! ## Making a header -/

/-- The forward hops of a route with the keys of all hops.
SRC: sphinx/src/header/routing/mod.rs:123-131 -/
def forwardHops (route : List Node) (keys : List RoutingKeys) (delays : List Delay) : List Hop :=
  (((route.drop 1).map Node.address).zip (keys.take (keys.length - 1))).zip
    (delays.take (delays.length - 1))

/-- The forward hops have all keys but the last. -/
theorem forwardHops_keys {route : List Node} {keys : List RoutingKeys} {delays : List Delay}
    (hkeys : keys.length = route.length) (hdelays : delays.length = route.length) :
    (forwardHops route keys delays).map (fun hop => hop.1.2) = keys.dropLast := by
  have hzip : (forwardHops route keys delays).map Prod.fst =
      ((route.drop 1).map Node.address).zip (keys.take (keys.length - 1)) := by
    apply List.map_fst_zip
    simp only [List.length_zip, List.length_map, List.length_drop, List.length_take, hkeys,
      hdelays]
    omega
  calc (forwardHops route keys delays).map (fun hop => hop.1.2)
      = ((forwardHops route keys delays).map Prod.fst).map Prod.snd := by rw [List.map_map]; rfl
    _ = keys.take (keys.length - 1) := by
        rw [hzip, List.map_snd_zip]
        simp only [List.length_map, List.length_drop, List.length_take, hkeys]
        omega
    _ = keys.dropLast := List.dropLast_eq_take.symm

/-- The forward hops behind the first one are those of the rest of the route. -/
theorem forwardHops_cons (node next : Node) (route : List Node) (keys nextKeys : RoutingKeys)
    (rest : List RoutingKeys) (delay nextDelay : Delay) (delays : List Delay) :
    forwardHops (node :: next :: route) (keys :: nextKeys :: rest) (delay :: nextDelay :: delays) =
      ((next.address, keys), delay) ::
        forwardHops (next :: route) (nextKeys :: rest) (nextDelay :: delays) := by
  simp [forwardHops]

/-- A route that a header can be made for: one to five hops, and a delay for each. -/
structure Fits (route : List Node) (delays : List Delay) : Prop where
  pos : 1 ≤ route.length
  le : route.length ≤ maxPathLength
  delays : delays.length = route.length

/-- Whether a route fits can be decided. -/
instance (route : List Node) (delays : List Delay) : Decidable (Fits route delays) :=
  decidable_of_iff (1 ≤ route.length ∧ route.length ≤ maxPathLength ∧
    delays.length = route.length)
    ⟨fun h => ⟨h.1, h.2.1, h.2.2⟩, fun h => ⟨h.pos, h.le, h.delays⟩⟩

/-- The routing information of the final hop, as the hop reads it, below hops with the given keys.
-/
structure Core (C : Crates) (above : List RoutingKeys) (keys : RoutingKeys) (dest : Destination)
    (core : EncapsulatedRoutingInformation) : Prop where
  filled : fillerBelow C above <:+ core.encRoutingInformation.toList
  mac : core.integrityMac = HeaderIntegrityMac.compute C keys.headerIntegrityHmacKey
    core.encRoutingInformation.toList
  unwrap : EncryptedRoutingInformation.unwrap C core.encRoutingInformation keys.streamCipherKey =
    .ok (.finalHop dest.address dest.identifier)

/-- INTERNAL: **the header** for a route that fits.  SRC: sphinx/src/header/mod.rs:52-80 -/
theorem headerNew_spec {R : Type} [Rng R] (secret : PrivateKey C) {route : List Node}
    {delays : List Delay} (h : Fits route delays) (dest : Destination) (rng : R) :
    ∃ core last, (hopKeys C secret route).getLast? = some last ∧
      Core C (hopKeys C secret route).dropLast last dest core ∧
      SphinxHeader.new C secret route delays dest rng =
        .ok (⟨secret.publicKey,
            infoFrom C (forwardHops route (hopKeys C secret route) delays) core⟩,
          (hopKeys C secret route).map RoutingKeys.payloadKey) := by
  have hkeys := hopKeys_length secret route
  have hmaterial := keyMaterial_routingKeys secret route
  generalize hopKeys C secret route = keys at hkeys hmaterial ⊢
  have hne : keys ≠ [] := List.ne_nil_of_length_pos (by rw [hkeys]; exact h.pos)
  have hlast := List.getLast?_eq_some_getLast hne
  have htake : keys.take (route.length - 1) = keys.dropLast := by
    rw [← hkeys, List.dropLast_eq_take]
  have hinit : keys.dropLast.length = route.length - 1 := by
    rw [List.length_dropLast, hkeys]
  have hfew : keys.dropLast.length ≤ maxPathLength := by
    have hle := h.le
    omega
  have hfill : (fillerBelow C keys.dropLast).length =
      (route.length - 1) * fillerStepSizeIncrease := by
    rw [fillerBelow, filler_length, List.length_map, hinit]
    · intro s hs
      obtain ⟨k, -, rfl⟩ := List.mem_map.mp hs
      exact hopKeystream_length_add _
    · have hle := h.le
      simp only [List.length_map, hinit, sizes] at hle ⊢
      omega
  obtain ⟨core, hcore, hfilled, hmac, hunwrap⟩ := forFinalHop_spec (C := C) dest
    (keys.getLast hne) h.pos h.le hfill rng
  refine ⟨core, _, hlast, ⟨hfilled, hmac, hunwrap⟩, ?_⟩
  rw [SphinxHeader.new, hmaterial, sub_of_le h.pos, ok_bind, sliceTo_of_le (by omega), ok_bind,
    htake, fillerNew_eq hfew, ok_bind, EncapsulatedRoutingInformation.new,
    assert_of hkeys.symm, ok_bind, assert_of h.delays, ok_bind, hlast]
  change ((EncapsulatedRoutingInformation.forFinalHop C dest (keys.getLast hne)
    (fillerBelow C keys.dropLast) route.length rng >>= _) >>= _) = _
  rw [hcore, ok_bind, EncapsulatedRoutingInformation.forForwardHops,
    sub_of_le (by rw [hkeys]; exact h.pos), ok_bind, sub_of_le (by rw [h.delays]; exact h.pos),
    ok_bind, foldlM_forwardStep, ok_bind]
  rfl

/-- A header comes with one key for each hop. -/
theorem headerNew_ok {R : Type} [Rng R] (secret : PrivateKey C) {route : List Node}
    {delays : List Delay} (h : Fits route delays) (dest : Destination) (rng : R) :
    ∃ header keys, SphinxHeader.new C secret route delays dest rng = .ok (header, keys) ∧
      keys.length = route.length := by
  obtain ⟨core, last, -, -, hnew⟩ := headerNew_spec secret h dest rng
  refine ⟨_, _, hnew, ?_⟩
  rw [List.length_map, hopKeys_length]

/-- A route of six hops passes the assertions of the filler, and not the computation of the room
for the destination.  SRC: sphinx/src/header/routing/destination.rs:46-59 -/
theorem forFinalHop_panics {R : Type} [Rng R] (dest : Destination) (keys : RoutingKeys)
    (fill : Bytes) {n : ℕ} (hn : maxPathLength < n) (rng : R) :
    EncapsulatedRoutingInformation.forFinalHop C dest keys fill n rng = .error .panic := by
  rw [EncapsulatedRoutingInformation.forFinalHop, FinalRoutingInformation.addPadding,
    FinalRoutingInformation.maxDestinationLength, sub_of_lt hn]
  rfl

/-- INTERNAL: **no header for any other route.**  SRC: sphinx/src/header/mod.rs:52-80 -/
theorem headerNew_panics {R : Type} [Rng R] (secret : PrivateKey C) {route : List Node}
    {delays : List Delay} (h : ¬ Fits route delays) (dest : Destination) (rng : R) :
    SphinxHeader.new C secret route delays dest rng = .error .panic := by
  have hkeys := hopKeys_length secret route
  rw [SphinxHeader.new, keyMaterial_routingKeys]
  generalize hopKeys C secret route = keys at hkeys ⊢
  by_cases hpos : 1 ≤ route.length
  · have hfew : (keys.take (route.length - 1)).length = route.length - 1 := by
      rw [List.length_take, hkeys]
      omega
    rw [sub_of_le hpos, ok_bind, sliceTo_of_le (by omega), ok_bind]
    by_cases hmany : route.length - 1 ≤ maxPathLength
    · rw [fillerNew_eq (by rwa [hfew]), ok_bind, EncapsulatedRoutingInformation.new,
        assert_of hkeys.symm, ok_bind]
      by_cases hdelays : delays.length = route.length
      · have hlong : maxPathLength < route.length := by
          by_contra hle
          exact h ⟨hpos, Nat.le_of_not_lt hle, hdelays⟩
        have hne : keys ≠ [] := List.ne_nil_of_length_pos (by rw [hkeys]; exact hpos)
        rw [assert_of hdelays, ok_bind, List.getLast?_eq_some_getLast hne]
        change ((EncapsulatedRoutingInformation.forFinalHop C dest _ _ route.length rng >>= _)
          >>= _) = _
        rw [forFinalHop_panics dest _ _ hlong]
        rfl
      · rw [assert_of_not hdelays]
        rfl
    · rw [Filler.new, assert_of_not (by rwa [hfew])]
      rfl
  · rw [sub_of_lt (Nat.lt_of_not_le hpos)]
    rfl

/-! ## Processing a header -/

section Process

variable {header : SphinxHeader} {sk : PrivateKey C} {keys : RoutingKeys}

/-- A MAC that is the computed one lets a hop go on to the routing information.
SRC: sphinx/src/header/mod.rs:150-196 -/
theorem process_of_mac (hkeys : SphinxHeader.computeRoutingKeys C header.sharedSecret sk = keys)
    (hmac : header.routingInfo.integrityMac = HeaderIntegrityMac.compute C
      keys.headerIntegrityHmacKey header.routingInfo.encRoutingInformation.toList) :
    header.process C sk =
      (header.routingInfo.encRoutingInformation.unwrap C keys.streamCipherKey >>= fun info =>
        match info with
        | .forwardHop nextHopAddress delay newRoutingInfo =>
            .ok (.forwardHop ⟨SphinxHeader.blindTheSharedSecret C header.sharedSecret
              keys.blindingFactor, newRoutingInfo⟩ nextHopAddress delay keys.payloadKey)
        | .finalHop destination identifier =>
            .ok (.finalHop destination identifier keys.payloadKey)) := by
  rw [SphinxHeader.process, hkeys]
  have hverify : header.routingInfo.integrityMac.verify C keys.headerIntegrityHmacKey
      header.routingInfo.encRoutingInformation.toList = true := decide_eq_true hmac
  dsimp only
  rw [hverify]
  rfl

/-- Any other MAC is refused.  SRC: sphinx/src/header/mod.rs:153-161 -/
theorem process_of_mac_ne (hkeys : SphinxHeader.computeRoutingKeys C header.sharedSecret sk = keys)
    (hmac : header.routingInfo.integrityMac ≠ HeaderIntegrityMac.compute C
      keys.headerIntegrityHmacKey header.routingInfo.encRoutingInformation.toList) :
    header.process C sk = fail .invalidHeader "failed to verify integrity MAC" := by
  rw [SphinxHeader.process, hkeys]
  have hverify : header.routingInfo.integrityMac.verify C keys.headerIntegrityHmacKey
      header.routingInfo.encRoutingInformation.toList = false := decide_eq_false hmac
  dsimp only
  rw [hverify]
  rfl

end Process

variable (C) in
/-- The header in front of the hops of a route, made with the given secret. -/
def headerFor (secret : PrivateKey C) (route : List Node) (delays : List Delay)
    (core : EncapsulatedRoutingInformation) : SphinxHeader :=
  ⟨secret.publicKey, infoFrom C (forwardHops route (hopKeys C secret route) delays) core⟩

variable (C) in
/-- The keys of the first hop. -/
def firstKeys (secret : PrivateKey C) (node : Node) : RoutingKeys :=
  RoutingKeys.derive C (secret.diffieHellman node.pubKey)

variable (C) in
/-- The secret behind the first hop. -/
def nextSecret (secret : PrivateKey C) (node : Node) : PrivateKey C :=
  secret.mulAssign (C.fromBytesModOrder (firstKeys C secret node).blindingFactor)

/-- The first node's keys come before those of a route with a blinded secret. -/
theorem hopKeys_cons (secret : PrivateKey C) (node : Node) (route : List Node) :
    hopKeys C secret (node :: route) =
      firstKeys C secret node :: hopKeys C (nextSecret C secret node) route := rfl

/-- The hop has the keys that the sender derived for it. -/
theorem computeRoutingKeys_publicKey (hC : C.Lawful) (secret sk : PrivateKey C) {node : Node}
    (hnode : node.pubKey = sk.publicKey) :
    SphinxHeader.computeRoutingKeys C secret.publicKey sk = firstKeys C secret node := by
  rw [firstKeys, hnode, dh_comm hC]
  rfl

/-- INTERNAL: **a forward hop** finds the next one, and the header in front of that one.
SRC: sphinx/src/header/mod.rs:150-196 -/
theorem process_forward (hC : C.Lawful) {secret sk : PrivateKey C} {node next : Node}
    {route : List Node} {delay nextDelay : Delay} {delays : List Delay} {dest : Destination}
    {core : EncapsulatedRoutingInformation} {above : List RoutingKeys} {last : RoutingKeys}
    (hnode : node.pubKey = sk.publicKey) (hdelays : delays.length = route.length)
    (hlen : above.length + (route.length + 2) ≤ maxPathLength)
    (hcore : Core C (above ++ (hopKeys C secret (node :: next :: route)).dropLast) last dest core) :
    (headerFor C secret (node :: next :: route) (delay :: nextDelay :: delays) core).process C sk =
      .ok (.forwardHop (headerFor C (nextSecret C secret node) (next :: route)
        (nextDelay :: delays) core) next.address delay (firstKeys C secret node).payloadKey) := by
  set hops := forwardHops (next :: route)
    (hopKeys C (nextSecret C secret node) (next :: route)) (nextDelay :: delays) with hhops
  have hinfo : headerFor C secret (node :: next :: route) (delay :: nextDelay :: delays) core =
      ⟨secret.publicKey, coverInfo C ((next.address, firstKeys C secret node), delay)
        (infoFrom C hops core)⟩ := by
    rw [headerFor, hopKeys_cons, hopKeys_cons, forwardHops_cons]
    rfl
  have hbelow : hops.map (fun hop => hop.1.2) =
      (hopKeys C (nextSecret C secret node) (next :: route)).dropLast := by
    apply forwardHops_keys
    · exact hopKeys_length _ _
    · rw [List.length_cons, List.length_cons, hdelays]
  have hcount : hops.length = route.length := by
    rw [← List.length_map (f := fun hop : Hop => hop.1.2), hbelow, List.length_dropLast,
      hopKeys_length]
    rfl
  have hfit : above.length + (hops.length + 1) ≤ maxPathLength := by
    rw [hcount]
    omega
  have hfilled : fillerBelow C (above ++ firstKeys C secret node ::
      hops.map fun hop => hop.1.2) <:+ core.encRoutingInformation.toList := by
    rw [hbelow]
    exact hcore.filled
  have hunwrap := unwrap_forward ((next.address, firstKeys C secret node), delay) hfit hfilled
  rw [hinfo, process_of_mac (computeRoutingKeys_publicKey hC secret sk hnode) rfl]
  change (EncryptedRoutingInformation.unwrap C _ _ >>= _) = _
  rw [show coverInfo C ((next.address, firstKeys C secret node), delay) (infoFrom C hops core) =
    infoFrom C (((next.address, firstKeys C secret node), delay) :: hops) core from rfl, hunwrap,
    ok_bind]
  dsimp only
  rw [blind_publicKey hC]
  rfl

/-- INTERNAL: **the final hop** finds the destination.  SRC: sphinx/src/header/mod.rs:150-196 -/
theorem process_final (hC : C.Lawful) {secret sk : PrivateKey C} {node : Node} {delay : Delay}
    {dest : Destination} {core : EncapsulatedRoutingInformation} {above : List RoutingKeys}
    (hnode : node.pubKey = sk.publicKey)
    (hcore : Core C above (firstKeys C secret node) dest core) :
    (headerFor C secret [node] [delay] core).process C sk =
      .ok (.finalHop dest.address dest.identifier (firstKeys C secret node).payloadKey) := by
  rw [process_of_mac (computeRoutingKeys_publicKey hC secret sk hnode) hcore.mac]
  change (EncryptedRoutingInformation.unwrap C core.encRoutingInformation _ >>= _) = _
  rw [hcore.unwrap, ok_bind]

end Eror.Analysis.Sphinx
