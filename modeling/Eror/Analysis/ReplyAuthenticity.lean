import Eror.Analysis.HeaderIdentity
import Eror.Analysis.Interleaving
import Eror.Analysis.PathErrors

/-!
# Only genuine replies are reported

Whatever an adversary puts before the nodes, and in whatever order onions are formed and
processed, a node reports a reply only for an onion that it has formed itself, and only the reply
that the receiver sealed under that onion's key and tag (`world_authentic`).  Nothing is assumed
of the MAC for this.  The sender finds the entry by the packed header, whose beginning decrypts to
the master key, and the master key and the tag of the entry leave room for one payload.

The rest of the reply's header is the one that was predicted when the onion was formed, up to a
collision of the MAC.
-/

set_option autoImplicit false

namespace Eror.Analysis

open Library Model

variable {R : Type} {P : Primitives R} {F : OnionFormat P} {sk : Address → P.PrivateKey} {w : ℕ}

/-- The key store has for each address the public key of the private key used at it, if any. -/
def KeysMatch (F : OnionFormat P) (sk : Address → P.PrivateKey) : Prop :=
  ∀ a pk, F.pki.get a = some pk → P.IsKeyPair (sk a) pk

/-! ## What `form_onion` has formed -/

section Formed

variable [Rng R] {fwd bwd : List Address} {payload : Bytes} {rng rng' : R} {o : Onion P}
  {expected : ExpectedResponse P}

/-- The paths that `form_onion` takes are within the limit and registered.
SRC: src/lib.rs:423-479, 630-643 -/
theorem routable_of_formOnion (hw : P.tagCodec.FixedWidth w) (hkeys : KeysMatch F sk)
    (h : F.formOnion fwd bwd payload rng = .ok ((o, expected), rng')) :
    Primitives.Routable F sk fwd ∧ Primitives.Routable F sk bwd := by
  have hlong : ¬ TooLong F fwd bwd := by
    intro hlong
    rw [formOnion_of_tooLong hlong] at h
    cases h
  have hnil : ¬ (fwd = [] ∨ bwd = []) := by
    intro hnil
    rw [formOnion_of_nil hlong hnil] at h
    cases h
  obtain ⟨hfwd, hbwd⟩ := not_or.mp hnil
  have hreg : ∀ a ∈ fwd ++ bwd, (F.pki.get a).isSome := by
    apply isSome_iff_not_missing.mpr
    intro hmissing
    rw [formOnion_of_missing hw hlong hfwd hbwd hmissing] at h
    cases h
  have hregistered : ∀ a ∈ fwd ++ bwd, Primitives.Registered F sk a := by
    intro a ha
    obtain ⟨pk, hget⟩ := Option.isSome_iff_exists.mp (hreg a ha)
    exact ⟨pk, hget, hkeys a pk hget⟩
  obtain ⟨hfwd', hbwd'⟩ := not_or.mp hlong
  exact ⟨⟨List.length_pos_of_ne_nil hfwd, not_lt.mp hfwd', fun a ha =>
      hregistered a (List.mem_append_left bwd ha)⟩,
    ⟨List.length_pos_of_ne_nil hbwd, not_lt.mp hbwd', fun a ha =>
      hregistered a (List.mem_append_right fwd ha)⟩⟩

/-- What was sent was formed, and its last hop expects the reply. -/
theorem formOnion_of_sent {fl : Flight P} {home : Address}
    (h : World.sent F fwd bwd payload rng = some (fl, home, expected)) :
    bwd.getLast? = some home ∧ ∃ rng', F.formOnion fwd bwd payload rng =
      .ok ((fl.onion, expected), rng') := by
  unfold World.sent at h
  split at h
  · rename_i o expected' rng' first home' hform hfirst hhome
    cases h
    exact ⟨hhome, rng', hform⟩
  · cases h

end Formed

/-! ## What `dbinfo` holds -/

/-- Some onion formed in these actions made the entry. -/
def Entry [Rng R] (F : OnionFormat P) (actions : List (Action R P)) (home : Address)
    (identifier : Bytes) (tag : P.Tag) : Prop :=
  ∃ fwd bwd payload rng fl expected, .send fwd bwd payload rng ∈ actions ∧
    World.sent F fwd bwd payload rng = some (fl, home, expected) ∧
    expected.identifier = identifier ∧ expected.tag = tag

/-- A reply was reported with an entry. -/
def Accepted [Rng R] (F : OnionFormat P) (sk : Address → P.PrivateKey)
    (actions : List (Action R P)) (e : Event P) : Prop :=
  ∀ p, e.outcome = .sender p → ∃ lookup tag,
    F.procOnion (sk e.received.node) lookup e.received.onion = .ok (.sender p) ∧
      lookup e.received.onion.packedHeader = some tag ∧
      Entry F actions e.received.node e.received.onion.packedHeader tag

/-- What holds of the world at all times: every entry was made, and every reply reported has
one. -/
structure Traced [Rng R] (F : OnionFormat P) (sk : Address → P.PrivateKey)
    (actions : List (Action R P)) (w : World P) : Prop where
  dbinfo : ∀ a identifier tag, w.dbinfo a identifier = some tag → Entry F actions a identifier tag
  history : ∀ t ∈ w.slots, ∀ e ∈ t.history, Accepted F sk actions e

/-- There is nothing to trace in the first world. -/
theorem traced_init [Rng R] {actions : List (Action R P)} :
    Traced F sk actions (World.init P) where
  dbinfo a identifier tag h := by cases h
  history t ht := by cases ht

/-- INTERNAL: a node that reports a reply has found a tag under the packed header.
SRC: src/lib.rs:714-734 -/
theorem lookup_of_procOnion_sender (hw : P.tagCodec.FixedWidth w) {key : P.PrivateKey}
    {o : Onion P} {lookup : Bytes → Option P.Tag} {p : Bytes}
    (h : F.procOnion key lookup o = .ok (.sender p)) :
    ∃ tag, lookup o.packedHeader = some tag := by
  obtain ⟨k, hopMeta, o', hu, hrole⟩ := role_of_procOnion_sender h
  rw [OnionFormat.procOnion_eq, procOnionMetered_of_sender hw hu hrole] at h
  obtain ⟨payload, hopen, -⟩ := map_eq_ok.mp h
  cases hl : lookup o.packedHeader with
  | none =>
      rw [hl, openReply, orErr_none, error_bind] at hopen
      cases hopen
  | some tag => exact ⟨tag, rfl⟩

/-- INTERNAL: what a turn reports is traced.  SRC: src/lib.rs:697-736 -/
theorem accepted_of_turn [Rng R] (hw : P.tagCodec.FixedWidth w) {actions : List (Action R P)}
    {w : World P} (h : Traced F sk actions w) {reply : Bytes} {s : ℕ × Flight P} {e : Event P}
    {next : Option (ℕ × Flight P)}
    (hstep : (World.turnMachine F sk w reply).step s = .ok (e, next)) :
    Accepted F sk actions e := by
  intro p hp
  obtain ⟨link, fl⟩ := s
  obtain ⟨e', hnode, he⟩ := bind_eq_ok.mp hstep
  obtain rfl : e' = e := by
    cases he
    rfl
  have hreceived : e'.received = fl := node_received hnode
  change Network.node _ _ = _ at hnode
  rw [Network.node_eq] at hnode
  obtain ⟨r, hproc, hnode⟩ := bind_eq_ok.mp hnode
  have hr : r = .sender p := by
    cases r with
    | hop next onion =>
        cases hnode
        cases hp
    | receiver payload =>
        obtain ⟨_, -, he'⟩ := bind_eq_ok.mp hnode
        cases he'
        cases hp
    | sender payload =>
        cases hnode
        cases hp
        rfl
  rw [hr] at hproc
  obtain ⟨tag, htag⟩ := lookup_of_procOnion_sender hw hproc
  rw [hreceived]
  exact ⟨_, tag, hproc, htag, h.dbinfo _ _ _ htag⟩

/-- INTERNAL: **every action keeps the trace.** -/
theorem traced_step [Rng R] (hw : P.tagCodec.FixedWidth w) {actions : List (Action R P)}
    {a : Action R P} (ha : a ∈ actions) {w : World P} (h : Traced F sk actions w) :
    Traced F sk actions (World.step F sk w a) where
  dbinfo := by
    cases a with
    | inject node onion => exact h.dbinfo
    | turn i reply => exact h.dbinfo
    | send fwd bwd payload rng =>
        intro a identifier tag hentry
        change World.remember F w (.send fwd bwd payload rng) a identifier = _ at hentry
        rw [World.remember] at hentry
        cases hs : World.sent F fwd bwd payload rng with
        | none =>
            rw [hs] at hentry
            exact h.dbinfo a identifier tag hentry
        | some s =>
            obtain ⟨fl, home, expected⟩ := s
            rw [hs] at hentry
            dsimp only [World.record] at hentry
            by_cases hsame : a = home ∧ identifier = expected.identifier
            · rw [if_pos hsame] at hentry
              obtain ⟨rfl, rfl⟩ := hsame
              exact ⟨fwd, bwd, payload, rng, fl, expected, ha, hs, rfl, Option.some.inj hentry⟩
            · rw [if_neg hsame] at hentry
              exact h.dbinfo a identifier tag hentry
  history := by
    change ∀ t ∈ runPool w.slots (World.poolAction F sk w a).toList, _
    cases hpool : World.poolAction F sk w a with
    | none => exact h.history
    | some pa =>
        refine stepPool_history h.history ?_
        rintro i M rfl s e next hstep
        cases a with
        | inject node onion => cases hpool
        | send fwd bwd payload rng =>
            obtain ⟨_, -, hadd⟩ := Option.map_eq_some_iff.mp hpool
            cases hadd
        | turn j reply =>
            cases hpool
            exact accepted_of_turn hw h hstep

/-! ## What an entry stands for -/

/-- INTERNAL: authentic onions with the same packed header open to the same key and
meta-information.  SRC: src/lib.rs:78-80, 551-553 -/
theorem opens_of_packedHeader {key : P.PrivateKey} {o o' : Onion P} {k k' : P.SymmetricKey}
    {hopMeta hopMeta' : Meta} (h : Authentic P key o k hopMeta)
    (h' : Authentic P key o' k' hopMeta') (hsame : o.packedHeader = o'.packedHeader) :
    k = k' ∧ hopMeta = hopMeta' := by
  obtain ⟨block, hopen, -⟩ := h
  obtain ⟨block', hopen', -⟩ := h'
  have hblock := block_of_packedHeader hopen
  rw [hsame, block_of_packedHeader hopen'] at hblock
  cases hblock
  exact hopen.unique hopen'

/-- INTERNAL: with matching keys, what was opened is the reply that the receiver sealed, behind the
header that was predicted.  SRC: src/lib.rs:326-384, 640-684, 714-734 -/
theorem genuine_of_sent [Rng R] (hP : P.Lawful) (hW : P.Widths 16 40) (hkeys : KeysMatch F sk)
    {fwd bwd : List Address} {payload : Bytes} {rng : R} {fl : Flight P} {home : Address}
    {expected : ExpectedResponse P}
    (hsent : World.sent F fwd bwd payload rng = some (fl, home, expected)) {o : Onion P}
    {lookup : Bytes → Option P.Tag} {p : Bytes}
    (hproc : F.procOnion (sk home) lookup o = .ok (.sender p))
    (hlookup : lookup o.packedHeader = some expected.tag)
    (hid : expected.identifier = o.packedHeader) :
    ∃ back : Onion P, expected.identifier = back.packedHeader ∧
      Authentic P (sk home) back (P.randomKey rng).1
        (OnionFormat.metaBackward fwd.length bwd.length) ∧
      genuineReply P (P.randomKey rng).1 fwd.length bwd.length expected.tag p = .ok o.backward ∧
      (F.totalHeaderLength + 8 + payload.length < 2 ^ 64 → o.Addressable →
        SameFrontOrCollision P (sk home) back o) := by
  obtain ⟨hhome, rng', hform⟩ := formOnion_of_sent hsent
  obtain ⟨hfwd, hbwd⟩ := routable_of_formOnion hW.tag hkeys hform
  obtain ⟨key, replyTo, back₁, back, plans, hformed, -⟩ :=
    formedBy_of_formOnion hP hW.tag hfwd.ne_nil hbwd.ne_nil hfwd.le hbwd.le hform
  obtain ⟨home', hhome', hheader, hauth, hlen⟩ := hformed.identified hW (sealedLength_lt hW rfl)
    hbwd.registered
  obtain rfl : home' = home := Option.some.inj (hhome'.symm.trans hhome)
  -- the onion that was found opens as the predicted one does
  obtain ⟨masterKey, hopMeta, n, hunwrap, hrole⟩ := role_of_procOnion_sender hproc
  obtain ⟨hauth', -, -⟩ := authentic_of_unwrap hW.tag hunwrap
  have hsame : back.packedHeader = o.packedHeader := by
    rw [← hformed.identifier, hid]
  obtain ⟨rfl, rfl⟩ := opens_of_packedHeader hauth hauth' hsame
  have hlimit : F.pathLimit < 2 ^ 32 := F.maxPathLength.toNat_lt
  have hcounters : counters (OnionFormat.metaBackward fwd.length bwd.length) =
      (fwd.length, bwd.length) := by
    have hf := hfwd.le
    have hb := hbwd.le
    exact counters_metaBackward (by omega) (by omega)
  rw [procOnion_of_sender hW.tag hunwrap hrole hcounters hfwd.pos hfwd.le hbwd.pos hbwd.le
    hlookup] at hproc
  obtain ⟨p', hopen, hp'⟩ := map_eq_ok.mp hproc
  cases hp'
  refine ⟨back, hformed.identifier, hauth,
    (genuineReply_eq_ok_iff hP hW.tag _ _ _ _ _ _).mpr (orErr_eq_ok.mp hopen), ?_⟩
  intro hsize haddressable
  exact (authentic_of_packedHeader hheader haddressable.header (hlen ▸ hsize) haddressable.forward
    hauth hauth' hsame).2

/-- **Only genuine replies are reported.**  In every run of the world, whatever onions are
injected, a node that reports the reply `p` has formed an onion in that run, of which it is the
last backward hop, and has found the tag of that onion under its identifier, which is the packed
header of the onion that it received.  When the keys in the store are those of the nodes, the
onion it received carries in its backward section the reply `p` as the receiver of the formed
onion seals it under the tag it was expected to receive, with the layers of the backward hops on
it.  Its header and its forward section are those that were predicted when the onion was formed,
or collide with them.  SRC: src/lib.rs:326-384, 640-684, 714-734 -/
theorem world_authentic [Rng R] (hP : P.Lawful) (hW : P.Widths 16 40) (F : OnionFormat P)
    (sk : Address → P.PrivateKey) (actions : List (Action R P))
    (t : FlightSlot P) (ht : t ∈ (World.run F sk (World.init P) actions).slots) (e : Event P)
    (he : e ∈ t.history) (p : Bytes) (hp : e.outcome = .sender p) :
    ∃ fwd bwd payload rng fl expected, .send fwd bwd payload rng ∈ actions ∧
      World.sent F fwd bwd payload rng = some (fl, e.received.node, expected) ∧
      bwd.getLast? = some e.received.node ∧
      expected.identifier = e.received.onion.packedHeader ∧
      (∃ lookup, F.procOnion (sk e.received.node) lookup e.received.onion = .ok (.sender p) ∧
        lookup e.received.onion.packedHeader = some expected.tag) ∧
      (KeysMatch F sk → ∃ back : Onion P, expected.identifier = back.packedHeader ∧
        Authentic P (sk e.received.node) back (P.randomKey rng).1
          (OnionFormat.metaBackward fwd.length bwd.length) ∧
        genuineReply P (P.randomKey rng).1 fwd.length bwd.length expected.tag p =
          .ok e.received.onion.backward ∧
        (F.totalHeaderLength + 8 + payload.length < 2 ^ 64 → e.received.onion.Addressable →
          SameFrontOrCollision P (sk e.received.node) back e.received.onion)) := by
  have htraced : Traced F sk actions (World.run F sk (World.init P) actions) := by
    apply World.run_invariant (fun a ha w hw => traced_step hW.tag ha hw)
    exact traced_init
  obtain ⟨lookup, tag, hproc, hlookup, fwd, bwd, payload, rng, fl, expected, hmem, hsent, hid, rfl⟩
    := htraced.history t ht e he p hp
  obtain ⟨hhome, -⟩ := formOnion_of_sent hsent
  exact ⟨fwd, bwd, payload, rng, fl, expected, hmem, hsent, hhome, hid, ⟨lookup, hproc, hlookup⟩,
    fun hkeys => genuine_of_sent hP hW hkeys hsent hproc hlookup hid⟩

/-- The key store of the sample has the keys that are used. -/
theorem sampleFormat_keysMatch (n : UInt32) : KeysMatch (sampleFormat n) samplePrivateKey := by
  intro a pk h
  cases h
  exact samplePrimitives_isKeyPair _

/-- A reply that is reported in a run of the sample world stands for an onion that was formed
there, and is the one that its receiver sealed. -/
theorem world_authentic_sample : ∃ e : Event samplePrimitives, e.outcome = .sender [5] ∧
    ∃ fwd bwd payload rng fl expected,
      (.send fwd bwd payload rng : Action ℕ samplePrimitives) ∈
        [.send [sampleAddress 7] [sampleAddress 8] [1, 2] 0, .turn 0 [5], .turn 0 []] ∧
      World.sent (sampleFormat 3) fwd bwd payload rng = some (fl, e.received.node, expected) ∧
      genuineReply samplePrimitives (samplePrimitives.randomKey rng).1 fwd.length bwd.length
        expected.tag [5] = .ok e.received.onion.backward := by
  let F := sampleFormat 3
  have hfwd : Primitives.Routable F samplePrivateKey [sampleAddress 7] :=
    sampleFormat_routable 3 (by decide) (by decide)
  have hbwd : Primitives.Routable F samplePrivateKey [sampleAddress 8] :=
    sampleFormat_routable 3 (by decide) (by decide)
  obtain ⟨o, expected, rng', -, -, -, -, -, -, hform, -⟩ :=
    formOnion_spec samplePrimitives_lawful samplePrimitives_widths.tag hfwd hbwd [1, 2] (0 : ℕ)
  obtain ⟨events, halone⟩ := deliveryRun_of_formOnion samplePrimitives_lawful
    samplePrimitives_widths hfwd hbwd (by decide) hform rfl [5]
  have hundisturbed : Undisturbed F (sampleAddress 8) expected
      [.turn 0 [5], .turn 0 []] :=
    fun fwd bwd payload rng fl expected' hmem => by simp at hmem
  have hslot := slot_of_send hfwd.ne_nil (sent_of_formOnion hform hfwd.ne_nil hbwd.ne_nil) rfl
    (World.init samplePrimitives) hundisturbed rfl halone
  have hdone := hslot.trans (congrArg some (Slot.solo_of_run halone.run))
  obtain ⟨e, he, houtcome⟩ : ∃ e ∈ events, e.outcome = .sender [5] := by
    have hmem : Outcome.sender [5] ∈ events.map Event.outcome := by
      rw [halone.outcomes]
      simp [reports]
    obtain ⟨e, he, hout⟩ := List.mem_map.mp hmem
    exact ⟨e, he, hout⟩
  obtain ⟨fwd, bwd, payload, rng, fl, expected', hmem, hsent, -, -, -, hgenuine⟩ :=
    world_authentic samplePrimitives_lawful samplePrimitives_widths F samplePrivateKey _ _
      (List.mem_of_getElem? hdone) e he [5] houtcome
  obtain ⟨back, -, -, hreply, -⟩ := hgenuine (sampleFormat_keysMatch 3)
  exact ⟨e, houtcome, fwd, bwd, payload, rng, fl, expected', hmem, hsent, hreply⟩

end Eror.Analysis
