import Eror.Analysis.FormOnionSpec

/-!
# The circuit of a formed onion

The legs of the forward path, the turn at the receiver, and the legs of the backward path back
to the sender make one circuit that the network serves (`FormedBy.travels`).  The turn is where
the two onions meet (`turn_serves`): the header that the receiver finds and the pseudorandom
forward section that it generates are, byte for byte, those of the backward onion, because
`total_header_length` is the length of the packed header.
-/

set_option autoImplicit false

namespace Eror.Analysis

open Library Model

variable {R : Type} {P : Primitives R} {w c : ℕ}

/-- A stop that relays. -/
def relay (leg : Leg P) : Stop P := ⟨leg, .relay⟩

/-- The stops between the sender and itself. -/
def circuitStops (legsF : List (Leg P)) (turn : Leg P) (payload : Bytes) (legsB : List (Leg P)) :
    List (Stop P) :=
  legsF.map relay ++ ⟨turn, .deliver payload⟩ :: legsB.map relay

/-! ## Serving the stops -/

section Served

variable {net : Network P} (home : Home P)

/-- The first leg of some relays and what comes after them. -/
theorem nextLeg_relays (legs : List (Leg P)) (stops : List (Stop P)) :
    (legs ++ [nextLeg home stops]).head? = some (nextLeg home (legs.map relay ++ stops)) := by
  cases legs <;> rfl

/-- The first leg of some relays before the sender. -/
theorem nextLeg_relays_nil (legs : List (Leg P)) :
    (legs ++ [home.leg]).head? = some (nextLeg home (legs.map relay)) := by
  cases legs <;> rfl

/-- Relays whose legs are linked are served. -/
theorem served_relays {legs : List (Leg P)} (stops : List (Stop P))
    (h : (legs ++ [nextLeg home stops]).IsChain (Link net.format net.privateKey))
    (hstops : Served net home stops) : Served net home (legs.map relay ++ stops) := by
  induction legs with
  | nil => exact hstops
  | cons leg legs ih =>
      obtain ⟨rest, hrest⟩ := List.head?_eq_some_iff.mp (nextLeg_relays home legs stops)
      rw [List.cons_append, hrest] at h
      obtain ⟨hlink, htail⟩ := List.isChain_cons_cons.mp h
      rw [← hrest] at htail
      exact ⟨hlink, ih htail⟩

end Served

/-! ## The turn at the receiver -/

variable {F : OnionFormat P}

/-- The blocks of a well-formed onion are vectors. -/
theorem addressable_of_wellFormed (hW : P.Widths w c) {o : Onion P} (h : o.WellFormed F) :
    AddressableHeader o.header := by
  have hlimit : F.pathLimit < 2 ^ 32 := F.maxPathLength.toNat_lt
  constructor
  · rw [h.count]
    omega
  · intro block hblock
    rw [h.block _ (List.mem_map_of_mem hblock)]
    exact singleHeaderLength_lt hW F

/-- The length of what is encrypted for the receiver.  SRC: src/lib.rs:645-648 -/
theorem innerPayload_length {o : Onion P} (h : o.WellFormed F) (payload : Bytes) :
    (innerPayload o payload).length = F.totalHeaderLength + 8 + payload.length := by
  change (Codec.bytes.list.encode (headerBytes o.header) ++ Codec.bytes.encode payload).length = _
  rw [List.length_append, packedHeaders_length h, Codec.bytes_encode, List.length_append,
    toLE_length]
  omega

/-- **The turn at the receiver.**  The header that the receiver finds in front of the payload
and the forward section that it generates are those of the backward onion.
SRC: src/lib.rs:582-611, 645-648, 672-673 -/
theorem turn_serves (hW : P.Widths w c) {net : Network P} {turn next : Leg P} {back₁ : Onion P}
    {payload : Bytes} (hpayload : payload.length < 2 ^ 64) (hback : back₁.WellFormed net.format)
    (hnext : next.front = front back₁)
    (hrandom : back₁.forward = randomPayload net.format turn.key payload.length)
    (hstep : FrontStep net.format (net.privateKey turn.node) turn.front turn.key
      ⟨.receiver, next.node⟩ (peelFront net.format turn.key turn.front))
    (hforward : peelForward P turn.key turn.front.forward = innerPayload back₁ payload) :
    Stop.Serves net ⟨turn, .deliver payload⟩ next := by
  have hlen : turn.front.forward.length =
      net.format.totalHeaderLength + 8 + payload.length := by
    rw [← innerPayload_length hback, ← hforward, peelForward, P.symmetricDecrypt_length]
  refine ⟨_, hstep, ?_, ?_⟩
  · change net.format.splitReplyHeader (peelForward P turn.key turn.front.forward) = _
    rw [hforward, innerPayload, hnext]
    exact splitReplyHeader_encode _ (addressable_of_wellFormed hW hback) hpayload
  · rw [hnext, hlen]
    exact hrandom

/-- INTERNAL: **the receiver's reply.**  The forward path unwraps, and the reply that the receiver
forms has the blocks of the backward onion, and a forward section that is generated from the
receiver's key at the length of the forward onion's.  SRC: src/lib.rs:582-611, 672-673 -/
theorem FormedBy.reply (hP : P.Lawful) (hW : P.Widths w c) {sk : Address → P.PrivateKey}
    {fwd bwd : List Address} {payload : Bytes} {o : Onion P} {expected : ExpectedResponse P}
    {masterKey key : P.SymmetricKey} {replyTo : Address} {back₁ backₙ : Onion P}
    {plans : List (HopPlan P)}
    (h : FormedBy F fwd bwd payload o expected masterKey key replyTo back₁ backₙ plans)
    (hreg : ∀ a ∈ fwd, Primitives.Registered F sk a) (hback : AddressableHeader back₁.header)
    (hpayload : payload.length < 2 ^ 64) :
    ∃ opened received receiver, fwd.getLast? = some receiver ∧
      unwrapPath F (fwd.dropLast.map sk) o = .ok (opened, received) ∧
      ∀ response, ∃ reply, F.replyOnion (sk receiver) received response = .ok (reply, replyTo) ∧
        headerBytes reply.header = headerBytes back₁.header ∧
        reply.forward = P.prng (P.deriveKey .prng key)
          (List.replicate (innerPayload back₁ payload).length 0) := by
  obtain ⟨init, lastPlan, garbage, hF, -⟩ := h.forward
  obtain ⟨legs, last, hpath⟩ := path_of_assembled hP hW hreg hF
  obtain ⟨hkeys, hsks, hreceiver, hlastKey⟩ := hpath.dropLast
  obtain ⟨hopen, hlen, -⟩ := hF.carries
  obtain ⟨received, hrun, hfront, -⟩ := unwrapPath_of_isChain legs last hpath.chain hpath.first
  rw [hsks] at hrun
  have hkey : key = last.key := Option.some.inj (h.lastKey.symm.trans hlastKey)
  have hplan : lastPlan.key = last.key := Option.some.inj (hF.keys_getLast?.symm.trans hlastKey)
  refine ⟨_, received, last.node, hreceiver, hrun, ?_⟩
  intro response
  have hunwrap := hpath.accept received hfront
  have hforward : ((peelFront F last.key last.front).onion
      (peelBackward P last.key received.backward)).forward = innerPayload back₁ payload := by
    change peelForward P last.key last.front.forward = _
    rw [hpath.last_front, ← hplan]
    exact hopen
  have hreceived : received.forward.length = (innerPayload back₁ payload).length := by
    have hsame : received.forward = expected.onion.forward :=
      congrArg Front.forward (hfront.trans hpath.last_front)
    rw [hsame, hlen]
  have hreply := replyOnion_of_receiver hunwrap rfl response
  rw [hforward, innerPayload, splitReplyHeader_encode F hback hpayload, ok_bind,
    hreceived, ← hkey] at hreply
  exact ⟨_, hreply, headerBytes_map_raw _, rfl⟩

/-! ## The sender at the end -/

/-- What a formed onion says about the way back: the legs behind the receiver start with the
backward onion and end at the sender with the predicted onion, and the sender opens what arrives
with the keys that it derives.  SRC: src/lib.rs:640-670, 714-724 -/
structure Homeward (net : Network P) (bwd : List Address) (n : ℕ)
    (masterKey receiverKey : P.SymmetricKey) (len : ℕ) (back₁ backₙ : Onion P)
    (legs : List (Leg P)) (home : Home P) : Prop where
  served : Served net home (legs.map relay)
  chain : (legs ++ [home.leg]).IsChain (Link net.format net.privateKey)
  first : (nextLeg home (legs.map relay)).front = front back₁
  last : home.leg.front = front backₙ
  node : (legs ++ [home.leg]).map Leg.node = bwd
  layers : home.layers = legs.map Leg.key
  key : home.key = P.deriveKey (.forward (UInt32.ofNat (n - 1))) masterKey
  wellFormed : back₁.WellFormed net.format
  random : back₁.forward = randomPayload net.format receiverKey len

/-- The sender is served with the keys that belong to the two path lengths.
SRC: src/lib.rs:650-654, 714-734 -/
theorem home_serves {net : Network P} {last : Leg P} {masterKey : P.SymmetricKey} {n m : ℕ}
    (hkey : last.key = masterKey) (hn : 1 ≤ n) (hn' : n ≤ net.format.pathLimit) (hm : 1 ≤ m)
    (hm' : m ≤ net.format.pathLimit)
    (hstep : FrontStep net.format (net.privateKey last.node) last.front last.key
      (OnionFormat.metaBackward n m) (peelFront net.format last.key last.front)) :
    Home.Serves net ⟨last, layerKeys P masterKey (m - 1),
      P.deriveKey (.forward (UInt32.ofNat (n - 1))) masterKey⟩ := by
  have hlimit : net.format.pathLimit < 2 ^ 32 := net.format.maxPathLength.toNat_lt
  have hcounters : counters (OnionFormat.metaBackward n m) = (n, m) :=
    counters_metaBackward (by omega) (by omega)
  have hloop : wrappingSub 64 m 1 = m - 1 := wrappingSub_of_le hm (by omega)
  refine ⟨_, _, rfl, hstep, ?_, ?_⟩
  · rw [hcounters, hloop, hkey]
  · rw [hcounters, hkey, replyKey_of_pos masterKey hn (by omega)]

/-- **The way back of a formed onion.**  SRC: src/lib.rs:640-670 -/
theorem FormedBy.homeward (hP : P.Lawful) (hW : P.Widths w c) (hsum : w + c = 56)
    {net : Network P} {fwd bwd : List Address} {payload : Bytes} {o : Onion P}
    {expected : ExpectedResponse P} {masterKey key : P.SymmetricKey} {replyTo : Address}
    {back₁ backₙ : Onion P} {plans : List (HopPlan P)}
    (h : FormedBy net.format fwd bwd payload o expected masterKey key replyTo back₁ backₙ plans)
    (hopens : ∀ p ∈ plans, p.Opens net.privateKey) (hfwd : fwd ≠ []) (hbwd : bwd ≠ [])
    (hfwd' : fwd.length ≤ net.format.pathLimit) (hbwd' : bwd.length ≤ net.format.pathLimit) :
    ∃ legs home,
      Homeward net bwd fwd.length masterKey key payload.length back₁ backₙ legs home := by
  obtain ⟨tag, init, lastPlan, garbage, hB, hplans⟩ := h.backward
  obtain ⟨legs, last, hpath⟩ := path_of_opens hP hW (fun p hp => hopens p (hplans p hp)) hB
  obtain ⟨hkeys, -, -, hlast⟩ := hpath.dropLast
  rw [OnionFormat.keysBackward, List.dropLast_concat] at hkeys
  rw [OnionFormat.keysBackward, List.getLast?_concat] at hlast
  let home : Home P := ⟨last, layerKeys P masterKey (bwd.length - 1),
    P.deriveKey (.forward (UInt32.ofNat (fwd.length - 1))) masterKey⟩
  have hhome : home.Serves net :=
    home_serves (Option.some.inj hlast).symm (List.length_pos_of_ne_nil hfwd) hfwd'
      (List.length_pos_of_ne_nil hbwd) hbwd' hpath.accept
  have hhead : (legs ++ [last]).head? = some (nextLeg home (legs.map relay)) :=
    nextLeg_relays_nil home legs
  have hserved := served_relays home [] hpath.chain hhome
  rw [List.append_nil] at hserved
  refine ⟨legs, home, hserved, hpath.chain, ?_, hpath.last_front, hpath.node, hkeys.symm, rfl,
    hB.wellFormed hW hsum, hB.forward_eq hP⟩
  · have hfirst := hpath.first
    rw [hhead] at hfirst
    exact Option.some.inj hfirst

/-! ## The whole circuit -/

/-- Everything the runs below use of an onion that `form_onion` returned: the circuit is served
and starts with the onion, its nodes are those of the two paths, it ends with the identifier and
the keys that the sender opens the reply with, the tag is the one the receiver will read, and
all fronts on it have one shape. -/
structure Travels (net : Network P) (fwd bwd : List Address) (payload : Bytes) (o : Onion P)
    (expected : ExpectedResponse P) (legsF : List (Leg P)) (turn : Leg P) (legsB : List (Leg P))
    (home : Home P) : Prop where
  served : Served net home (circuitStops legsF turn payload legsB)
  first : (nextLeg home (circuitStops legsF turn payload legsB)).front = front o
  forward : (legsF ++ [turn]).map Leg.node = fwd
  backward : (legsB ++ [home.leg]).map Leg.node = bwd
  identifier : home.leg.front.blocks.flatten = expected.identifier
  layers : home.layers = legsB.map Leg.key
  key : home.key = turn.key
  tag : (peelBackward P turn.key
    (peelAll (peelBackward P) (legsF.map Leg.key) o.backward)).2 = expected.tag
  garbage : o.backward.1.length = payload.length
  shape : ∀ leg ∈ legsF ++ turn :: (legsB ++ [home.leg]),
    leg.front.Shape net.format (net.format.totalHeaderLength + 8 + payload.length)

/-- INTERNAL: all fronts on a way that starts with a well-formed onion have its shape. -/
theorem shape_of_first (hw : P.tagCodec.FixedWidth w) {F : OnionFormat P}
    {sk : Address → P.PrivateKey} {legs : List (Leg P)} {o : Onion P}
    (hchain : legs.IsChain (Link F sk)) (hfirst : legs.head?.map Leg.front = some (front o))
    (hwf : o.WellFormed F) : ∀ leg ∈ legs, leg.front.Shape F o.forward.length := by
  apply shape_of_isChain hw hchain
  intro leg hleg
  rw [hleg] at hfirst
  rw [Option.some.inj hfirst]
  exact shape_of_wellFormed hwf

/-- The fronts on the way back have one shape. -/
theorem Homeward.shape (hw : P.tagCodec.FixedWidth w) {net : Network P} {bwd : List Address}
    {n len : ℕ} {masterKey key : P.SymmetricKey} {back₁ backₙ : Onion P} {legs : List (Leg P)}
    {home : Home P} (h : Homeward net bwd n masterKey key len back₁ backₙ legs home) :
    ∀ leg ∈ legs ++ [home.leg],
      leg.front.Shape net.format (net.format.totalHeaderLength + 8 + len) := by
  have hlen : back₁.forward.length = net.format.totalHeaderLength + 8 + len := by
    rw [h.random, randomPayload, P.prng_length, List.length_replicate]
  have hfirst : (legs ++ [home.leg]).head?.map Leg.front = some (front back₁) := by
    rw [nextLeg_relays_nil, Option.map_some, h.first]
  rw [← hlen]
  exact shape_of_first hw h.chain hfirst h.wellFormed

/-- INTERNAL: the receiver's leg stands in front of the way back.
SRC: src/lib.rs:582-611, 640-673 -/
theorem Homeward.turn_served (hW : P.Widths w c) {net : Network P} {bwd : List Address} {n : ℕ}
    {payload : Bytes} {masterKey : P.SymmetricKey} {replyTo : Address} {back₁ backₙ : Onion P}
    {legs : List (Leg P)} {home : Home P} {turn : Leg P}
    (h : Homeward net bwd n masterKey turn.key payload.length back₁ backₙ legs home)
    (hpayload : payload.length < 2 ^ 64) (hreplyTo : bwd.head? = some replyTo)
    (haccept : FrontStep net.format (net.privateKey turn.node) turn.front turn.key
      ⟨.receiver, replyTo⟩ (peelFront net.format turn.key turn.front))
    (hforward : peelForward P turn.key turn.front.forward = innerPayload back₁ payload) :
    Served net home (⟨turn, .deliver payload⟩ :: legs.map relay) := by
  have hnext : (nextLeg home (legs.map relay)).node = replyTo := by
    have hnodes := congrArg List.head? h.node
    rw [List.head?_map, nextLeg_relays_nil, hreplyTo] at hnodes
    exact Option.some.inj hnodes
  rw [← hnext] at haccept
  exact ⟨turn_serves hW hpayload h.wellFormed h.first h.random haccept hforward, h.served⟩

/-- **The circuit of a formed onion.**  SRC: src/lib.rs:582-684 -/
theorem FormedBy.travels (net : Network P) (hP : P.Lawful) (hW : P.Widths w c)
    (hsum : w + c = 56) {fwd bwd : List Address} {payload : Bytes} {o : Onion P}
    {expected : ExpectedResponse P} {masterKey key : P.SymmetricKey} {replyTo : Address}
    {back₁ backₙ : Onion P} {plans : List (HopPlan P)}
    (h : FormedBy net.format fwd bwd payload o expected masterKey key replyTo back₁ backₙ plans)
    (hopens : ∀ p ∈ plans, p.Opens net.privateKey) (hfwd : fwd ≠ []) (hbwd : bwd ≠ [])
    (hfwd' : fwd.length ≤ net.format.pathLimit) (hbwd' : bwd.length ≤ net.format.pathLimit)
    (hpayload : payload.length < 2 ^ 64) :
    ∃ legsF turn legsB home, Travels net fwd bwd payload o expected legsF turn legsB home := by
  obtain ⟨legsB, home, hback⟩ := h.homeward hP hW hsum hopens hfwd hbwd hfwd' hbwd'
  obtain ⟨init, lastPlan, garbage, hF, hplans⟩ := h.forward
  obtain ⟨legsF, turn, hpath⟩ := path_of_opens hP hW (fun p hp => hopens p (hplans p hp)) hF
  obtain ⟨hkeys, -, -, hlast⟩ := hpath.dropLast
  obtain ⟨hopen, hlen, hgarbage, hbwdN, htag⟩ := hF.carries
  -- the key of the receiver
  have hplan : lastPlan.key = turn.key := Option.some.inj (hF.keys_getLast?.symm.trans hlast)
  have hkey : key = turn.key := Option.some.inj (h.lastKey.symm.trans hlast)
  have hreplyKey : home.key = turn.key := by
    have hlastKey := keysForward_getLast? P masterKey (fwd.length - 1)
    rw [Nat.sub_add_cancel (List.length_pos_of_ne_nil hfwd), hlast] at hlastKey
    rw [hback.key]
    exact (Option.some.inj hlastKey).symm
  have hforward : peelForward P turn.key turn.front.forward = innerPayload back₁ payload := by
    rw [hpath.last_front, ← hplan]
    exact hopen
  -- the circuit is served from its end to its start
  subst hkey
  have hturn := hback.turn_served hW hpayload h.firstHop hpath.accept hforward
  have hserved : Served net home (circuitStops legsF turn payload legsB) :=
    served_relays home (⟨turn, .deliver payload⟩ :: legsB.map relay) hpath.chain hturn
  have hfirst : (nextLeg home (circuitStops legsF turn payload legsB)).front = front o := by
    have hhead : (legsF ++ [turn]).head? =
        some (nextLeg home (circuitStops legsF turn payload legsB)) :=
      nextLeg_relays home legsF (⟨turn, .deliver payload⟩ :: legsB.map relay)
    have hstart := hpath.first
    rw [hhead] at hstart
    exact Option.some.inj hstart
  refine ⟨legsF, turn, legsB, home, hserved, hfirst, hpath.node, hback.node, ?_, hback.layers,
    hreplyKey, ?_, hgarbage, ?_⟩
  · rw [hback.last, h.identifier]
    exact List.flatMap_def.symm
  · have hpredicted : peelAll (peelBackward P) (init.map HopPlan.key) o.backward =
        expected.onion.backward := hbwdN.symm
    rw [hkeys, hF.keys_dropLast, ← hplan, hpredicted]
    exact htag.symm
  · have hforwardLen : o.forward.length = net.format.totalHeaderLength + 8 + payload.length := by
      rw [hF.forward, coverAll_coverForward_length, hlen, innerPayload_length hback.wellFormed]
    intro leg hleg
    rw [List.append_cons] at hleg
    rcases List.mem_append.mp hleg with hleg | hleg
    · rw [← hforwardLen]
      exact shape_of_first hW.tag hpath.chain hpath.first (hF.wellFormed hW hsum) leg hleg
    · exact hback.shape hW.tag leg hleg

/-- On registered hops the plans open. -/
theorem FormedBy.opens (hW : P.Widths w c) {sk : Address → P.PrivateKey} {fwd bwd : List Address}
    {payload : Bytes} {o : Onion P} {expected : ExpectedResponse P}
    {masterKey key : P.SymmetricKey} {replyTo : Address} {back₁ backₙ : Onion P}
    {plans : List (HopPlan P)}
    (h : FormedBy F fwd bwd payload o expected masterKey key replyTo back₁ backₙ plans)
    (hfwd : Primitives.Routable F sk fwd) (hbwd : Primitives.Routable F sk bwd) :
    ∀ p ∈ plans, p.Opens sk := by
  intro p hp
  obtain ⟨hsealed, hmem⟩ := h.isSealed p hp
  rcases List.mem_append.mp hmem with hmem | hmem
  · exact hsealed.opens (hfwd.registered _ hmem) hW
  · exact hsealed.opens (hbwd.registered _ hmem) hW

/-- What `form_onion` returned travels.  SRC: src/lib.rs:623-684 -/
theorem travels_of_formOnion [Rng R] (hP : P.Lawful) (hW : P.Widths w c) (hsum : w + c = 56)
    (net : Network P) {fwd bwd : List Address}
    (hfwd : Primitives.Routable net.format net.privateKey fwd)
    (hbwd : Primitives.Routable net.format net.privateKey bwd) {payload : Bytes}
    (hpayload : payload.length < 2 ^ 64) {rng rng' : R} {o : Onion P}
    {expected : ExpectedResponse P}
    (h : net.format.formOnion fwd bwd payload rng = .ok ((o, expected), rng')) :
    ∃ legsF turn legsB home, Travels net fwd bwd payload o expected legsF turn legsB home := by
  obtain ⟨key, replyTo, back₁, backₙ, plans, hformed, -⟩ :=
    formedBy_of_formOnion hP hW.tag hfwd.ne_nil hbwd.ne_nil hfwd.le hbwd.le h
  exact hformed.travels net hP hW hsum (hformed.opens hW hfwd hbwd) hfwd.ne_nil hbwd.ne_nil hfwd.le
    hbwd.le hpayload

end Eror.Analysis
