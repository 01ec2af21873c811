import Eror.Analysis.Delivery
import Eror.Interface.World

/-!
# Delivery under every interleaving

An onion that a sender forms in the midst of a run is delivered and answered whatever else
happens: other onions are formed, crafted ones are put before nodes, and turns are taken in any
order (`world_delivers`).  The reason is that a node's turn depends on the state it shares with
the other onions in one place only, the sender's lookup in `dbinfo` (`node_of_agree`).  So along
the way of the onion every turn is a step of the network in which the onion is alone, and the
slot of the onion is the run of that network, cut off where its turns end.
-/

set_option autoImplicit false

namespace Eror.Analysis

open Library Model

variable {R : Type} {P : Primitives R} {F : OnionFormat P} {sk : Address → P.PrivateKey}

/-! ## What a turn depends on -/

/-- A node looks the identifier of its onion up, and no other.  SRC: src/lib.rs:716, 725 -/
theorem procOnion_congr {key : P.PrivateKey} {o : Onion P} {lookup lookup' : Bytes → Option P.Tag}
    (h : lookup o.packedHeader = lookup' o.packedHeader) :
    F.procOnion key lookup o = F.procOnion key lookup' o := by
  unfold OnionFormat.procOnion OnionFormat.procOnionIn OnionFormat.procOnionMeteredIn
    OnionFormat.procSender
  simp only [h]

/-- A hop and a receiver look nothing up.  SRC: src/lib.rs:707-713 -/
theorem procOnion_of_not_sender {key : P.PrivateKey} {o o' : Onion P} {k : P.SymmetricKey}
    {hopMeta : Meta} (h : F.unwrap key o = .ok (k, hopMeta, o')) (hrole : hopMeta.role ≠ .sender)
    (lookup lookup' : Bytes → Option P.Tag) :
    F.procOnion key lookup o = F.procOnion key lookup' o := by
  cases hr : hopMeta.role with
  | sender => exact absurd hr hrole
  | receiver => rw [procOnion_of_receiver h hr, procOnion_of_receiver h hr]
  | hop => rw [procOnion_of_hop h hr, procOnion_of_hop h hr]

/-- INTERNAL: a node whose outcome is a reply has looked up its tag. -/
theorem role_of_procOnion_sender {key : P.PrivateKey} {o : Onion P}
    {lookup : Bytes → Option P.Tag} {payload : Bytes}
    (h : F.procOnion key lookup o = .ok (.sender payload)) :
    ∃ k hopMeta o', F.unwrap key o = .ok (k, hopMeta, o') ∧ hopMeta.role = .sender := by
  cases hu : F.unwrap key o with
  | error fault =>
      rw [procOnion_of_error hu] at h
      cases h
  | ok r =>
      obtain ⟨k, hopMeta, o'⟩ := r
      refine ⟨k, hopMeta, o', rfl, ?_⟩
      cases hr : hopMeta.role with
      | sender => rfl
      | receiver =>
          rw [procOnion_of_receiver hu hr] at h
          obtain ⟨_, -, hp⟩ := bind_eq_ok.mp h
          cases hp
      | hop =>
          rw [procOnion_of_hop hu hr] at h
          cases h

/-- **What the nodes share.**  A node's turn depends on the lookup only when it obtains a reply,
and then only at the packed header of the onion, and on what receivers answer only when it is the
receiver.  SRC: src/lib.rs:582-611, 697-736 -/
theorem node_of_agree {lookup lookup' : Bytes → Option P.Tag} {reply reply' : Bytes}
    {fl : Flight P} {e : Event P} (h : Network.node ⟨F, sk, lookup, reply⟩ fl = .ok e)
    (hreply : ∀ payload next, e.outcome = .receiver payload next → reply' = reply)
    (hlookup : ∀ payload, e.outcome = .sender payload →
      lookup' fl.onion.packedHeader = lookup fl.onion.packedHeader) :
    Network.node ⟨F, sk, lookup', reply'⟩ fl = .ok e := by
  rw [Network.node_eq] at h ⊢
  dsimp only at h ⊢
  obtain ⟨r, hproc, h⟩ := bind_eq_ok.mp h
  have hproc' : F.procOnion (sk fl.node) lookup' fl.onion = .ok r := by
    cases r with
    | sender payload =>
        cases h
        rw [procOnion_congr (hlookup payload rfl), hproc]
    | hop next onion =>
        obtain ⟨k, hu⟩ := unwrap_of_procOnion_hop hproc
        rw [procOnion_of_not_sender hu (by simp) lookup' lookup, hproc]
    | receiver payload =>
        cases hu : F.unwrap (sk fl.node) fl.onion with
        | error fault =>
            rw [procOnion_of_error hu] at hproc
            cases hproc
        | ok s =>
            obtain ⟨k, hopMeta, o'⟩ := s
            by_cases hrole : hopMeta.role = .sender
            · rw [OnionFormat.procOnion_eq, procOnionMetered_eq_procSender hu hrole] at hproc
              obtain ⟨_, hp⟩ := procSender_returns _ _ _ _ _ _ hproc
              cases hp
            · rw [procOnion_of_not_sender hu hrole lookup' lookup, hproc]
  rw [hproc', ok_bind]
  cases r with
  | sender payload => exact h
  | hop next onion => exact h
  | receiver payload =>
      obtain ⟨⟨onion, next⟩, hanswer, he⟩ := bind_eq_ok.mp h
      cases he
      rw [hreply payload next rfl]
      exact bind_eq_ok.mpr ⟨(onion, next), hanswer, rfl⟩

/-! ## The onion alone -/

/-- What the nodes of the two paths report, the sender included. -/
def reports (fwd bwd : List Address) (payload reply : Bytes) : List Outcome :=
  fwd.tail.map .hop ++ (bwd.head?.map (Outcome.receiver payload)).toList ++
    bwd.tail.map .hop ++ [.sender reply]

/-- The receiver's report is the one of the last forward hop. -/
theorem reports_receiver {fwd bwd : List Address} (hfwd : fwd ≠ []) {payload reply p : Bytes}
    {next : Address} {k : ℕ} (h : (reports fwd bwd payload reply)[k]? = some (.receiver p next)) :
    k = fwd.length - 1 := by
  obtain ⟨a, fwd, rfl⟩ := List.exists_cons_of_ne_nil hfwd
  simp only [reports, List.tail_cons, List.append_assoc] at h
  rw [List.length_cons, Nat.add_sub_cancel]
  rcases lt_trichotomy k fwd.length with hk | hk | hk
  · rw [List.getElem?_append_left (by simpa using hk)] at h
    simp at h
  · exact hk
  · obtain ⟨d, rfl⟩ := Nat.exists_eq_add_of_lt hk
    rw [List.getElem?_append_right (by simp; omega), List.length_map] at h
    have hmem := List.mem_of_getElem? h
    cases bwd with
    | nil => simp at hmem
    | cons b bwd =>
        rw [List.head?_cons, Option.map_some, Option.toList_some, List.singleton_append,
          show fwd.length + d + 1 - fwd.length = d + 1 by omega, List.getElem?_cons_succ] at h
        have hmem := List.mem_of_getElem? h
        simp at hmem

/-- A network in which the formed onion is alone, and its run. -/
structure DeliveryRun (F : OnionFormat P) (sk : Address → P.PrivateKey) (fwd bwd : List Address)
    (payload reply : Bytes) (expected : ExpectedResponse P) (start : Flight P)
    (events : List (Event P)) : Prop where
  run : ((Network.mk F sk (onlyExpected expected) reply).machine (noTampering P)).run
    (fwd.length + bwd.length) (0, start) = .ok (events, none)
  outcomes : events.map Event.outcome = reports fwd bwd payload reply
  nodes : events.map (fun e => e.received.node) = fwd ++ bwd
  /-- The reply is found under the identifier. -/
  identified : ∀ e ∈ events, ∀ p, e.outcome = .sender p →
    bwd.getLast? = some e.received.node ∧ e.received.onion.packedHeader = expected.identifier

/-- INTERNAL: an onion that travels, alone in a network.  SRC: src/lib.rs:582-684 -/
theorem deliveryRun_of_travels (hP : P.Lawful) {w : ℕ} (hw : P.tagCodec.FixedWidth w)
    {fwd bwd : List Address} (hbwd : bwd ≠ []) {payload reply : Bytes} {o : Onion P}
    {expected : ExpectedResponse P} {legsF legsB : List (Leg P)} {turn : Leg P} {home : Home P}
    (htravels : Travels ⟨F, sk, onlyExpected expected, reply⟩ fwd bwd payload o expected legsF turn
      legsB home) {first : Address} (hfirst : fwd.head? = some first) :
    ∃ events, DeliveryRun F sk fwd bwd payload reply expected ⟨first, o⟩ events := by
  have hreplyTo := List.head?_eq_some_head hbwd
  obtain ⟨events, last, hrun, -, htrail, hlast⟩ := htravels.run hw hfirst (noTampering P)
  have hforward : ∀ i < fwd.length, noTampering P i = none := fun _ _ => rfl
  have hbackward : ∀ i, fwd.length ≤ i → noTampering P i = none := fun _ _ => rfl
  have hwhole := htravels.whole_run hP hw hbackward (onlyExpected_identifier expected) hrun
    hlast
  rw [htravels.expected_tag hforward, openReply_aeEnc hP] at hwhole
  have hnode : last.node = home.leg.node := congrArg View.node hlast
  have houtcomes : events.map Event.outcome =
      fwd.tail.map .hop ++ .receiver payload (bwd.head hbwd) :: bwd.tail.map .hop := by
    rw [← htravels.outcomes hreplyTo, ← htrail, List.map_map]
    rfl
  refine ⟨_, hwhole, ?_, ?_, ?_⟩
  · rw [List.map_append, houtcomes, reports, hreplyTo]
    simp
  · rw [List.map_append, ← htravels.nodes, ← htrail, List.map_map, ← hnode]
    rfl
  · intro e he p hp
    rcases List.mem_append.mp he with he | he
    · -- no hop before the last one reports a reply
      have hmem : Outcome.sender p ∈ events.map Event.outcome := hp ▸ List.mem_map_of_mem he
      rw [houtcomes] at hmem
      simp only [List.mem_append, List.mem_cons, List.mem_map, reduceCtorEq, and_false,
        exists_false, or_self] at hmem
    · obtain rfl := List.mem_singleton.mp he
      constructor
      · rw [← htravels.backward, List.map_append]
        exact List.getLast?_concat.trans (congrArg some hnode.symm)
      · have hblocks : headerBytes last.onion.header = home.leg.front.blocks :=
          congrArg (fun v => v.front.blocks) hlast
        change last.onion.packedHeader = _
        rw [← htravels.identifier, ← hblocks]
        exact List.flatMap_def

/-- INTERNAL: what `form_onion` returned, alone in a network.  SRC: src/lib.rs:582-684 -/
theorem deliveryRun_of_formOnion [Rng R] (hP : P.Lawful) (hW : P.Widths 16 40)
    {fwd bwd : List Address} (hfwd : Primitives.Routable F sk fwd)
    (hbwd : Primitives.Routable F sk bwd) {payload : Bytes} (hpayload : payload.length < 2 ^ 64)
    {rng rng' : R} {o : Onion P} {expected : ExpectedResponse P}
    (hform : F.formOnion fwd bwd payload rng = .ok ((o, expected), rng')) {first : Address}
    (hfirst : fwd.head? = some first) (reply : Bytes) :
    ∃ events, DeliveryRun F sk fwd bwd payload reply expected ⟨first, o⟩ events := by
  obtain ⟨legsF, turn, legsB, home, htravels⟩ := travels_of_formOnion hP hW rfl
    ⟨F, sk, onlyExpected expected, reply⟩ hfwd hbwd hpayload hform
  exact deliveryRun_of_travels hP hW.tag hbwd.ne_nil htravels hfirst

/-! ## The onion among others -/

/-- A turn records what was received. -/
theorem node_received {net : Network P} {fl : Flight P} {e : Event P} (h : net.node fl = .ok e) :
    e.received = fl := by
  rw [Network.node_eq] at h
  obtain ⟨r, -, h⟩ := bind_eq_ok.mp h
  cases r with
  | hop next onion =>
      cases h
      rfl
  | sender payload =>
      cases h
      rfl
  | receiver payload =>
      obtain ⟨_, -, he⟩ := bind_eq_ok.mp h
      cases he
      rfl

/-- INTERNAL: a turn in the world is a turn in the network in which the onion is alone, where the
receiver gives the same answer and `dbinfo` still has the entry. -/
theorem turnMachine_step {w : World P} {home : Address} {expected : ExpectedResponse P}
    {reply reply' : Bytes} {s : ℕ × Flight P} {e : Event P} {next : Option (ℕ × Flight P)}
    (hentry : w.dbinfo home expected.identifier = some expected.tag)
    (h : ((Network.mk F sk (onlyExpected expected) reply).machine (noTampering P)).step s =
      .ok (e, next))
    (hreply : ∀ payload next, e.outcome = .receiver payload next → reply' = reply)
    (hsender : ∀ p, e.outcome = .sender p →
      e.received.node = home ∧ e.received.onion.packedHeader = expected.identifier) :
    (World.turnMachine F sk w reply').step s =
      ((Network.mk F sk (onlyExpected expected) reply).machine (noTampering P)).step s := by
  obtain ⟨link, fl⟩ := s
  obtain ⟨e', hnode, he⟩ := bind_eq_ok.mp h
  obtain rfl : e' = e := by
    cases he
    rfl
  have hreceived : e'.received = fl := node_received hnode
  have hnode' : (World.network F sk w fl.node reply').node fl = .ok e' := by
    apply node_of_agree hnode hreply
    intro p hp
    obtain ⟨hhome, hheader⟩ := hsender p hp
    rw [hreceived] at hhome hheader
    change w.dbinfo fl.node fl.onion.packedHeader = onlyExpected expected fl.onion.packedHeader
    rw [hheader, hhome, hentry, onlyExpected_identifier]
  rw [h]
  exact bind_eq_ok.mpr ⟨e', hnode', he⟩

/-- The entry for `expected` stays. -/
theorem dbinfo_step [Rng R] {home : Address} {expected : ExpectedResponse P}
    {actions : List (Action R P)} (h : Undisturbed F home expected actions) {a : Action R P}
    (ha : a ∈ actions) (w : World P)
    (hentry : w.dbinfo home expected.identifier = some expected.tag) :
    (World.step F sk w a).dbinfo home expected.identifier = some expected.tag := by
  cases a with
  | inject node onion => exact hentry
  | turn i reply => exact hentry
  | send fwd bwd payload rng =>
      change World.remember F w (.send fwd bwd payload rng) home _ = _
      rw [World.remember]
      cases hs : World.sent F fwd bwd payload rng with
      | none => exact hentry
      | some s =>
          obtain ⟨fl, home', expected'⟩ := s
          dsimp only [World.record]
          by_cases hsame : home = home' ∧ expected.identifier = expected'.identifier
          · obtain ⟨rfl, hid⟩ := hsame
            rw [if_pos ⟨rfl, hid⟩, h fwd bwd payload rng fl expected' ha hs hid.symm]
          · rw [if_neg hsame, hentry]

/-- INTERNAL: **the slot of an onion that is sent is its run alone**, with the answer that the
receiver gave in its turn.  SRC: src/lib.rs:697-736 -/
theorem slot_of_send [Rng R] {fwd bwd : List Address} {payload : Bytes} {rng : R}
    {start : Flight P} {home : Address} {expected : ExpectedResponse P} (hfwd : fwd ≠ [])
    (hsent : World.sent F fwd bwd payload rng = some (start, home, expected))
    (hhome : bwd.getLast? = some home) (w : World P) {actions : List (Action R P)}
    (hundisturbed : Undisturbed F home expected actions) {turns : List Bytes}
    (hturns : turns = repliesOf w.slots.length actions) {events : List (Event P)}
    (halone : DeliveryRun F sk fwd bwd payload (turns.getD (fwd.length - 1) []) expected start
      events) :
    (World.run F sk w (.send fwd bwd payload rng :: actions)).slots[w.slots.length]? =
      some (Slot.solo ((Network.mk F sk (onlyExpected expected)
        (turns.getD (fwd.length - 1) [])).machine (noTampering P)) turns.length (0, start)) := by
  -- the world behind the `send`
  let w₁ := World.step F sk w (.send fwd bwd payload rng)
  have hslots : w₁.slots[w.slots.length]? = some (Slot.fresh (0, start)) := by
    have hadd : w₁.slots = w.slots ++ [Slot.fresh (0, start)] := by
      change runPool w.slots (World.poolAction F sk w (.send fwd bwd payload rng)).toList = _
      rw [World.poolAction, hsent]
      rfl
    rw [hadd, List.getElem?_concat_length]
  have hentry : w₁.dbinfo home expected.identifier = some expected.tag := by
    change World.remember F w (.send fwd bwd payload rng) _ _ = _
    rw [World.remember, hsent]
    exact if_pos ⟨rfl, rfl⟩
  have hmachines : List.Forall₂ (fun M reply => ∃ w' : World P,
      w'.dbinfo home expected.identifier = some expected.tag ∧
        M = World.turnMachine F sk w' reply)
      (turnsOf w.slots.length (World.poolActions F sk w₁ actions)) turns :=
    hturns ▸ World.turnsOf_poolActions (fun a ha w => dbinfo_step hundisturbed ha w) hentry _
  rw [World.run_cons, World.run_slots, runPool_getElem? _ _ hslots, ← hmachines.length_eq]
  apply congrArg some
  apply Slot.turns_of_agree
  -- each turn is a step of the network in which the onion is alone
  intro k M' hM' s hs
  obtain ⟨e, next, he, hstep⟩ := Slot.step_of_solo halone.run hs
  obtain ⟨hlt, hM'⟩ := List.getElem?_eq_some_iff.mp hM'
  have hlt' : k < turns.length := hmachines.length_eq ▸ hlt
  obtain ⟨w', hw', hmachine⟩ := hmachines.get hlt hlt'
  rw [← hM']
  refine (congrArg (fun M : Machine _ _ _ => M.step s) hmachine).trans ?_
  refine turnMachine_step hw' hstep ?_ ?_
  · intro p next' hp
    have hk : k = fwd.length - 1 := by
      apply reports_receiver hfwd
      rw [← halone.outcomes, List.getElem?_map, he, Option.map_some, hp]
    rw [← hk, List.getD_eq_getElem?_getD, List.getElem?_eq_getElem hlt']
    rfl
  · intro p hp
    obtain ⟨hnode, hheader⟩ := halone.identified e (List.mem_of_getElem? he) p hp
    rw [hhome] at hnode
    exact ⟨(Option.some.inj hnode).symm, hheader⟩

/-- A turn is taken for each hop. -/
theorem DeliveryRun.length {fwd bwd : List Address} {payload reply : Bytes}
    {expected : ExpectedResponse P} {start : Flight P} {events : List (Event P)}
    (h : DeliveryRun F sk fwd bwd payload reply expected start events) :
    events.length = fwd.length + bwd.length := by
  rw [← List.length_map (f := fun e => e.received.node), h.nodes, List.length_append]

/-- What is formed is sent to the first hop, and expected by the last one. -/
theorem sent_of_formOnion [Rng R] {fwd bwd : List Address} {payload : Bytes} {rng rng' : R}
    {o : Onion P} {expected : ExpectedResponse P}
    (h : F.formOnion fwd bwd payload rng = .ok ((o, expected), rng')) (hfwd : fwd ≠ [])
    (hbwd : bwd ≠ []) :
    World.sent F fwd bwd payload rng =
      some (⟨fwd.head hfwd, o⟩, bwd.getLast hbwd, expected) := by
  simp only [World.sent, h, List.head?_eq_some_head hfwd, List.getLast?_eq_some_getLast hbwd]

/-- **Delivery under every interleaving.**  An onion that a sender forms at any time, over paths
within the limit whose hops are registered, makes its way through any run in which its entry of
`dbinfo` is not taken: after each of its turns, what it has met with is the beginning of what it
meets when it is alone, with the answer that the receiver gave in its turn.  So the payload is
delivered once, at the last forward hop, the reply is obtained once, by the sender, no node
faults on it, and only turns of its own are needed, whatever is formed, injected or scheduled
beside it.  SRC: src/lib.rs:582-611, 623-684, 697-736 -/
theorem world_delivers [Rng R] (hP : P.Lawful) (hW : P.Widths 16 40) (F : OnionFormat P)
    (sk : Address → P.PrivateKey) (fwd bwd : List Address) (hfwd : Primitives.Routable F sk fwd)
    (hbwd : Primitives.Routable F sk bwd) (payload : Bytes) (hpayload : payload.length < 2 ^ 64)
    (rng : R) :
    ∃ first home o expected, fwd.head? = some first ∧ bwd.getLast? = some home ∧
      World.sent F fwd bwd payload rng = some (⟨first, o⟩, home, expected) ∧
      ∀ (w : World P) (actions : List (Action R P)), Undisturbed F home expected actions →
        ∃ t turns, turns = repliesOf w.slots.length actions ∧
          (World.run F sk w (.send fwd bwd payload rng :: actions)).slots[w.slots.length]? =
            some t ∧
          t.history.map Event.outcome =
            (reports fwd bwd payload (turns.getD (fwd.length - 1) [])).take turns.length ∧
          t.history.map (fun e => e.received.node) = (fwd ++ bwd).take turns.length ∧
          (t.status = .halted ↔ fwd.length + bwd.length ≤ turns.length) ∧
          ∀ fault, t.status ≠ .faulted fault := by
  obtain ⟨o, expected, rng', -, -, -, -, -, -, hform, -⟩ :=
    formOnion_spec hP hW.tag hfwd hbwd payload rng
  have hfirst := List.head?_eq_some_head hfwd.ne_nil
  have hhome := List.getLast?_eq_some_getLast hbwd.ne_nil
  have hsent := sent_of_formOnion hform hfwd.ne_nil hbwd.ne_nil
  refine ⟨_, _, o, expected, hfirst, hhome, hsent, ?_⟩
  intro w actions hundisturbed
  obtain ⟨events, halone⟩ := deliveryRun_of_formOnion hP hW hfwd hbwd hpayload hform hfirst
    ((repliesOf w.slots.length actions).getD (fwd.length - 1) [])
  obtain ⟨hhistory, hhalted, hfault⟩ :=
    Slot.solo_of_halting_run halone.run halone.length (repliesOf w.slots.length actions).length
  refine ⟨_, _, rfl, slot_of_send hfwd.ne_nil hsent hhome w hundisturbed rfl halone, ?_, ?_,
    hhalted, hfault⟩
  · rw [hhistory, List.map_take, halone.outcomes]
  · rw [hhistory, List.map_take, halone.nodes]

/-- An onion that was put before the same node faults, and the sender's own is delivered beside
it. -/
theorem world_delivers_sample : ∃ t,
    (World.run (sampleFormat 3) samplePrivateKey (World.init samplePrimitives)
      [.send [sampleAddress 7] [sampleAddress 8] [1, 2] 0,
        .inject (sampleAddress 7) ⟨[], [], ([], samplePrimitives.defaultTag)⟩,
        .turn 1 [], .turn 0 [5], .turn 1 [], .turn 0 [6]]).slots[0]? = some t ∧
      t.history.map Event.outcome = [.receiver [1, 2] (sampleAddress 8), .sender [5]] := by
  obtain ⟨first, home, o, expected, hfirst, hhome, hsent, hrun⟩ :=
    world_delivers samplePrimitives_lawful samplePrimitives_widths (sampleFormat 3)
      samplePrivateKey [sampleAddress 7] [sampleAddress 8]
      (sampleFormat_routable 3 (by decide) (by decide))
      (sampleFormat_routable 3 (by decide) (by decide)) [1, 2] (by decide) (0 : ℕ)
  obtain ⟨t, turns, rfl, hslot, houtcomes, -, -, -⟩ := hrun (World.init samplePrimitives)
    [.inject (sampleAddress 7) ⟨[], [], ([], samplePrimitives.defaultTag)⟩,
      .turn 1 [], .turn 0 [5], .turn 1 [], .turn 0 [6]]
    (fun fwd bwd payload rng fl expected' hmem => by simp at hmem)
  exact ⟨t, hslot, houtcomes⟩

end Eror.Analysis
