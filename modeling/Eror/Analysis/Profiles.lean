import Eror.Analysis.ProcessRoles
import Eror.Interface.Network

/-!
# What overflow checks change

In the `dev` profile the operations on integers in `unwrap` and `proc_onion` are checked.  Those of
`unwrap` depend on the limit of the format alone, and are reached by authentic onions only
(`unwrapIn_of_fits`, `unwrapIn_of_not_authentic`, `unwrapIn_dev_of_authentic`).  Those of
`proc_onion` depend on the counters that the sender finds in its own meta-information
(`procOnionIn_of_sender`, `procOnionIn_dev_of_sender`).

What comes back in the `dev` profile comes back in the `release` profile too (`node_of_nodeIn`).
-/

set_option autoImplicit false

namespace Eror.Analysis

open Library Model

variable {R : Type} {P : Primitives R} {w : ℕ}

/-- One can be subtracted from the limit of the format, and added to it.
SRC: src/lib.rs:560, 567 -/
structure LimitFits (F : OnionFormat P) : Prop where
  sub : 1 ≤ F.pathLimit
  add : F.pathLimit + 1 < 2 ^ 32

/-- One can be subtracted from both counters of the sender, from the one of the forward hops as an
integer of 32 bits.  SRC: src/lib.rs:720, 724 -/
structure CountersFit (hopMeta : Meta) : Prop where
  backward : 1 ≤ (counters hopMeta).2
  forward : (counters hopMeta).1 % 2 ^ 32 ≠ 0

/-- The meter of the sender's branch says whether the counters fit.  SRC: src/lib.rs:720, 724 -/
theorem underflows_eq_zero_iff (hopMeta : Meta) :
    0 + underflow (counters hopMeta).2 1 + underflow (asU32 (counters hopMeta).1) 1 = 0 ↔
      CountersFit hopMeta := by
  have hcast : asU32 (counters hopMeta).1 = (counters hopMeta).1 % 2 ^ 32 := by
    unfold asU32
    rfl
  unfold underflow
  rw [hcast]
  constructor
  · intro h
    constructor
    · by_contra hlt
      rw [if_pos (by omega)] at h
      omega
    · intro hzero
      rw [hzero, if_pos Nat.zero_lt_one] at h
      omega
  · rintro ⟨hbackward, hforward⟩
    rw [if_neg (by omega), if_neg (by omega)]

section Unwrap

variable {p : Profile} {F : OnionFormat P} {sk : P.PrivateKey} {o : Onion P}
  {key : P.SymmetricKey} {hopMeta : Meta}

/-- INTERNAL: `unwrap` up to the comparison of the MACs, which is behind all that is the same in
both profiles.  SRC: src/lib.rs:551-574 -/
theorem unwrapIn_eq (F : OnionFormat P) (p : Profile) (sk : P.PrivateKey) (o : Onion P) :
    F.unwrapIn p sk o = do
      let first ← orPanic o.header[0]?
      let block ← first.intoParsed
      let plain ← P.asymmetricDecrypt sk block.data
      let (key, hopMeta) ← orErr ((keyMetaCodec P).deserialize plain) .macMismatch
      if layerTag P key block.data o ≠ block.tag then .error (.err .macMismatch)
      else do
        p.check (1 ≤ F.pathLimit)
        let shifted ← (List.range (rounds F)).foldlM (shiftBlock P (P.deriveKey .symEnc key))
          o.header
        p.check (F.pathLimit + 1 < 2 ^ 32)
        let _ ← orPanic shifted.getLast?
        let backward ← aeUnwrap P key o.backward
        return (key, hopMeta, ⟨shifted.set (shifted.length - 1)
          (.raw (F.fillBlock (P.deriveKey .symEnc key))),
          P.symmetricDecrypt (P.deriveKey .symEnc key) nonceFwd o.forward, backward⟩) := by
  unfold OnionFormat.unwrapIn
  simp only [range_zero]
  rfl

/-- INTERNAL: what `unwrap` does behind a block that opens. -/
theorem unwrapIn_of_opens {block : HeaderBlock P} (hopen : Opens P sk o block key hopMeta) :
    F.unwrapIn p sk o =
      if layerTag P key block.data o ≠ block.tag then .error (.err .macMismatch)
      else do
        p.check (1 ≤ F.pathLimit)
        let shifted ← (List.range (rounds F)).foldlM (shiftBlock P (P.deriveKey .symEnc key))
          o.header
        p.check (F.pathLimit + 1 < 2 ^ 32)
        let _ ← orPanic shifted.getLast?
        let backward ← aeUnwrap P key o.backward
        return (key, hopMeta, ⟨shifted.set (shifted.length - 1)
          (.raw (F.fillBlock (P.deriveKey .symEnc key))),
          P.symmetricDecrypt (P.deriveKey .symEnc key) nonceFwd o.forward, backward⟩) := by
  obtain ⟨first, rest, plain, hh, hb, hd, hk⟩ := hopen
  have hfirst : o.header[0]? = some first := by rw [hh, List.getElem?_cons_zero]
  rw [unwrapIn_eq, hfirst, orPanic_some, ok_bind, hb, ok_bind, hd, ok_bind, hk, orErr_some, ok_bind]

/-- INTERNAL: with a limit that fits, `unwrap` is the same in both profiles. -/
theorem unwrapIn_of_fits (h : p = .dev → LimitFits F) : F.unwrapIn p sk o = F.unwrap sk o := by
  cases p with
  | release => rfl
  | dev =>
      obtain ⟨hsub, hadd⟩ := h rfl
      have hdev := unwrapIn_eq F .dev sk o
      have hrelease := unwrapIn_eq F .release sk o
      simp only [check_bind_of_holds _ fun _ => hsub, check_bind_of_holds _ fun _ => hadd]
        at hdev
      simp only [check_release_bind] at hrelease
      exact hdev.trans hrelease.symm

/-- INTERNAL: an onion that is not authentic does not get to the checks.
SRC: src/lib.rs:551-559 -/
theorem unwrapIn_of_not_authentic (h : ∀ key hopMeta, ¬ Authentic P sk o key hopMeta) :
    F.unwrapIn p sk o = F.unwrap sk o := by
  change _ = F.unwrapIn .release sk o
  rw [unwrapIn_eq, unwrapIn_eq]
  cases hh : o.header with
  | nil => rw [List.getElem?_nil, orPanic_none, error_bind, error_bind]
  | cons first rest =>
      rw [List.getElem?_cons_zero, orPanic_some, ok_bind, ok_bind]
      cases hb : first.intoParsed with
      | error fault => rw [error_bind, error_bind]
      | ok block =>
          rw [ok_bind, ok_bind]
          cases hd : P.asymmetricDecrypt sk block.data with
          | error fault => rw [error_bind, error_bind]
          | ok plain =>
              rw [ok_bind, ok_bind]
              cases hk : (keyMetaCodec P).deserialize plain with
              | none => rw [orErr_none, error_bind, error_bind]
              | some r =>
                  obtain ⟨key, hopMeta⟩ := r
                  have hopen : Opens P sk o block key hopMeta :=
                    ⟨first, rest, plain, hh, hb, hd, hk⟩
                  have htag : layerTag P key block.data o ≠ block.tag :=
                    fun htag => h key hopMeta ⟨block, hopen, htag⟩
                  rw [orErr_some, ok_bind, ok_bind]
                  exact (if_pos htag).trans (if_pos htag).symm

/-- INTERNAL: an authentic onion makes a check of `unwrap` fail, if not an index before.
SRC: src/lib.rs:560-567 -/
theorem unwrapIn_dev_of_authentic (hauth : Authentic P sk o key hopMeta) (h : ¬ LimitFits F) :
    F.unwrapIn .dev sk o = .error .panic := by
  obtain ⟨block, hopen, htag⟩ := hauth
  rw [unwrapIn_of_opens hopen, if_neg (not_not.mpr htag)]
  by_cases hsub : 1 ≤ F.pathLimit
  · have hadd : ¬ F.pathLimit + 1 < 2 ^ 32 := fun hadd => h ⟨hsub, hadd⟩
    rw [check_of_holds fun _ => hsub, ok_bind]
    rcases Nat.lt_or_ge (rounds F) o.header.length with hlen | hlen
    · rw [foldlM_shiftBlock _ _ _ hlen, ok_bind, check_dev_of_not hadd, error_bind]
    · have hne : o.header ≠ [] := by
        obtain ⟨first, rest, -, hh, -⟩ := hopen
        rw [hh]
        exact List.cons_ne_nil _ _
      rw [foldlM_shiftBlock_of_length_le _ _ _ hne hlen, error_bind]
  · rw [check_dev_of_not hsub, error_bind]

/-- An authentic onion of too few blocks panics in both profiles.  SRC: src/lib.rs:560-567 -/
theorem unwrapIn_of_authentic_of_short (hauth : Authentic P sk o key hopMeta)
    (hlen : o.header.length ≤ rounds F) : F.unwrapIn p sk o = .error .panic := by
  by_cases hfits : p = .dev → LimitFits F
  · rw [unwrapIn_of_fits hfits, unwrap_of_authentic_of_short hauth hlen]
  · obtain ⟨rfl, hlimit⟩ := Classical.not_imp.mp hfits
    exact unwrapIn_dev_of_authentic hauth hlimit

/-- What is unwrapped with checks is unwrapped without.  SRC: src/lib.rs:545-575 -/
theorem unwrap_of_unwrapIn {r : P.SymmetricKey × Meta × Onion P}
    (h : F.unwrapIn p sk o = .ok r) : F.unwrap sk o = .ok r := by
  cases p with
  | release => exact h
  | dev =>
      by_cases hfits : LimitFits F
      · rwa [unwrapIn_of_fits fun _ => hfits] at h
      · by_cases hauth : ∃ key hopMeta, Authentic P sk o key hopMeta
        · obtain ⟨key, hopMeta, hauth⟩ := hauth
          rw [unwrapIn_dev_of_authentic hauth hfits] at h
          cases h
        · rwa [unwrapIn_of_not_authentic fun key hopMeta hk => hauth ⟨key, hopMeta, hk⟩] at h

end Unwrap

/-! ## The roles -/

section Roles

variable {p : Profile} {F : OnionFormat P} {sk : P.PrivateKey} {o o' : Onion P}
  {key : P.SymmetricKey} {hopMeta : Meta}

/-- INTERNAL: with counters that fit, the sender opens the reply.  SRC: src/lib.rs:714-734 -/
theorem procOnionIn_of_sender (hw : P.tagCodec.FixedWidth w)
    (h : F.unwrapIn p sk o = .ok (key, hopMeta, o')) (hrole : hopMeta.role = .sender)
    (hcounters : p = .dev → CountersFit hopMeta) (lookup : Bytes → Option P.Tag) :
    F.procOnionIn p sk lookup o =
      (openReply P (replyKey P key (counters hopMeta).1) (lookup o.packedHeader)
        (coverAll (coverBackward P) (layerKeys P key (wrappingSub 64 (counters hopMeta).2 1))
          o.backward)).map .sender :=
  resultIn_eq ((procOnionMeteredIn_eq_procSender h hrole lookup _).trans
    (procSender_eq hw key hopMeta lookup o ⟨0, 0⟩))
    fun hp => (underflows_eq_zero_iff hopMeta).mpr (hcounters hp)

/-- INTERNAL: with others, it panics, before it has looked the tag up.
SRC: src/lib.rs:720, 724 -/
theorem procOnionIn_dev_of_sender (hw : P.tagCodec.FixedWidth w)
    (h : F.unwrapIn .dev sk o = .ok (key, hopMeta, o')) (hrole : hopMeta.role = .sender)
    (hcounters : ¬ CountersFit hopMeta) (lookup : Bytes → Option P.Tag) :
    F.procOnionIn .dev sk lookup o = .error .panic :=
  resultIn_dev_of_underflow ((procOnionMeteredIn_eq_procSender h hrole lookup _).trans
    (procSender_eq hw key hopMeta lookup o ⟨0, 0⟩))
    fun hzero => hcounters ((underflows_eq_zero_iff hopMeta).mp hzero)

/-- What is processed with checks is processed without.  SRC: src/lib.rs:697-736 -/
theorem procOnion_of_procOnionIn {lookup : Bytes → Option P.Tag} {r : ProcessedOnion P}
    (h : F.procOnionIn p sk lookup o = .ok r) : F.procOnion sk lookup o = .ok r := by
  cases hu : F.unwrapIn p sk o with
  | error fault =>
      rw [procOnionIn_of_error hu] at h
      cases h
  | ok s =>
      have hmetered : F.procOnionMetered sk lookup o ⟨0, 0⟩ =
          F.procOnionMeteredIn p sk lookup o ⟨0, 0⟩ := by
        have hrelease : F.unwrapIn .release sk o = .ok s := unwrap_of_unwrapIn hu
        unfold OnionFormat.procOnionMetered OnionFormat.procOnionMeteredIn
        rw [hu, hrelease]
      obtain ⟨_, -, hr⟩ := bind_eq_ok.mp h
      rw [OnionFormat.procOnion_eq, hmetered]
      exact hr

/-- What is answered with checks is answered without.  SRC: src/lib.rs:582-611 -/
theorem replyOnion_of_replyOnionIn {payload : Bytes} {r : Onion P × Address}
    (h : F.replyOnionIn p sk o payload = .ok r) : F.replyOnion sk o payload = .ok r := by
  unfold OnionFormat.replyOnionIn at h
  obtain ⟨s, hu, h⟩ := bind_eq_ok.mp h
  exact bind_eq_ok.mpr ⟨s, unwrap_of_unwrapIn hu, h⟩

/-- **What a node does with checks it does without.**  SRC: src/lib.rs:582-611, 697-736 -/
theorem node_of_nodeIn {net : Network P} {fl : Flight P} {e : Event P}
    (h : net.nodeIn p fl = .ok e) : net.node fl = .ok e := by
  unfold Network.nodeIn at h
  rw [Network.node_eq]
  obtain ⟨r, hproc, h⟩ := bind_eq_ok.mp h
  refine bind_eq_ok.mpr ⟨r, procOnion_of_procOnionIn hproc, ?_⟩
  cases r with
  | hop next onion => exact h
  | sender payload => exact h
  | receiver payload =>
      obtain ⟨s, hanswer, h⟩ := bind_eq_ok.mp h
      exact bind_eq_ok.mpr ⟨s, replyOnion_of_replyOnionIn hanswer, h⟩

end Roles

end Eror.Analysis
