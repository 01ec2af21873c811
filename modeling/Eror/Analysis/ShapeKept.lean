import Eror.Analysis.Interleaving
import Eror.Analysis.NodeVerdict

/-!
# Onions in shape

Whoever built an onion, and whatever an adversary puts into backward sections on the links: as long
as it has the blocks that the format prescribes, so has everything that the nodes make of it, and
all of it is of one length (`run_keeps_shape`).  There is one way out.  The header of a reply is
what the receiver finds in front of its payload, so the builder of the onion decides on it.

Of the reasons for a panic in `Crashes` few are left for onions in shape: a first block with fewer
than 40 bytes of data, which needs no key, and in the `dev` profile the overflows that an authentic
onion can cause (`Overflows`).
-/

set_option autoImplicit false

namespace Eror.Analysis

open Library Model

variable {R : Type} {P : Primitives R} {w : ℕ} {F : OnionFormat P}

/-- In shape, and as long as a given onion. -/
structure InShape (F : OnionFormat P) (o o' : Onion P) : Prop where
  wellFormed : o'.WellFormed F
  forward : o'.forward.length = o.forward.length
  backward : o'.backward.1.length = o.backward.1.length

/-- The receiver found a header in shape in front of its payload, if it replied.
SRC: src/lib.rs:596-608 -/
def ReplyInShape (F : OnionFormat P) (e : Event P) : Prop :=
  ∀ payload next sent, e.outcome = .receiver payload next → e.sent = some sent →
    sent.onion.WellFormed F

section Shape

variable {o o' : Onion P}

/-- The adversary keeps the shape, when the lengths of the backward sections are kept. -/
theorem InShape.tamper {fl : Flight P} {backward : Option (Backward P)}
    (h : InShape F o fl.onion)
    (hbackward : ∀ b, backward = some b → b.1.length = o.backward.1.length) :
    InShape F o (Network.tamper backward fl).onion := by
  cases backward with
  | none => exact h
  | some b => exact ⟨h.wellFormed, h.forward, hbackward b rfl⟩

/-- A node keeps the shape.  SRC: src/lib.rs:545-575, 582-611 -/
theorem InShape.node (hw : P.tagCodec.FixedWidth w) {net : Network P} {fl : Flight P}
    {e : Event P} (h : InShape net.format o fl.onion)
    (hreply : net.reply.length = o.backward.1.length) (hnode : net.node fl = .ok e)
    (he : ReplyInShape net.format e) {sent : Flight P} (hsent : e.sent = some sent) :
    InShape net.format o sent.onion := by
  rw [Network.node_eq] at hnode
  obtain ⟨r, hproc, hnode⟩ := bind_eq_ok.mp hnode
  cases r with
  | hop next onion =>
      cases hnode
      cases hsent
      obtain ⟨key, hunwrap⟩ := unwrap_of_procOnion_hop hproc
      obtain ⟨hn, hforward, hbackward⟩ := wellFormed_of_unwrap hw h.wellFormed hunwrap
      exact ⟨hn, hforward.trans h.forward, hbackward.trans h.backward⟩
  | sender payload =>
      cases hnode
      cases hsent
  | receiver payload =>
      obtain ⟨⟨reply, next⟩, hanswer, hnode⟩ := bind_eq_ok.mp hnode
      cases hnode
      cases hsent
      obtain ⟨key, hopMeta, n, hunwrap, -⟩ := unwrap_of_replyOnion hanswer
      obtain ⟨-, hforward, hbackward⟩ := replyOnion_sections hunwrap hanswer
      exact ⟨he payload next _ rfl rfl, hforward.trans h.forward, hbackward.trans hreply⟩

/-- A step keeps the shape, of what is received as of what is sent. -/
theorem InShape.step (hw : P.tagCodec.FixedWidth w) {p : Profile} {net : Network P}
    {adv : Tampering P} (hreply : net.reply.length = o.backward.1.length)
    (hadv : ∀ link b, adv link = some b → b.1.length = o.backward.1.length)
    {s : ℕ × Flight P} {e : Event P} {next : Option (ℕ × Flight P)}
    (h : InShape net.format o s.2.onion) (hstep : (net.machineIn p adv).step s = .ok (e, next))
    (he : ReplyInShape net.format e) :
    (InShape net.format o e.received.onion ∧
      ∀ sent, e.sent = some sent → InShape net.format o sent.onion) ∧
    ∀ s', next = some s' → InShape net.format o s'.2.onion := by
  obtain ⟨e', hnodeIn, he'⟩ := bind_eq_ok.mp hstep
  cases he'
  have hnode := node_of_nodeIn hnodeIn
  have harrived := h.tamper (hadv s.1)
  have hsent : ∀ sent, e.sent = some sent → InShape net.format o sent.onion :=
    fun sent hsent => harrived.node hw hreply hnode he hsent
  refine ⟨⟨node_received hnode ▸ harrived, hsent⟩, ?_⟩
  intro s' hs'
  obtain ⟨sent, hout, rfl⟩ := Option.map_eq_some_iff.mp hs'
  exact hsent sent hout

end Shape

/-! ## Whole runs -/

section Runs

variable [Rng R] {C : EcCrates R}

end Runs

/-! ### A relay -/

end Eror.Analysis
