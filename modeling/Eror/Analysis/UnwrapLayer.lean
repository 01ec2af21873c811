import Eror.Analysis.BackwardLayer
import Eror.Interface.OnionShape
import Eror.Library.ShiftRegister

/-!
# What `unwrap` accepts and returns

`unwrap` opens the first block (`Opens`), compares the MAC (`Authentic`), shifts the header
and removes a layer of the payloads.  The loop that shifts works in place and reads one
position ahead of where it writes; `foldlM_shiftBlock` is its invariant.  It ends in an index
out of range exactly when the header is shorter than the limit
(`foldlM_shiftBlock_of_length_le`).

`unwrap_of_authentic` is the one description of a successful call the rest of the
development uses.  On a header of the right number of blocks what it returns is a shift register
step (`peelOnion_of_shape`), and nothing but the front of the onion decides about it
(`Authentic.of_front_eq`).
-/

set_option autoImplicit false

namespace Eror.Analysis

open Library Model

variable {R : Type} {P : Primitives R} {w : ℕ}

/-! ## Opening the first block -/

/-- The first block parses as `block`.  SRC: src/lib.rs:551 -/
def FirstBlock (o : Onion P) (block : HeaderBlock P) : Prop :=
  ∃ first rest, o.header = first :: rest ∧ first.intoParsed = .ok block

/-- The first block parses as `block`, whose data decrypts to the key and the
meta-information.  SRC: src/lib.rs:551-553 -/
def Opens (P : Primitives R) (sk : P.PrivateKey) (o : Onion P) (block : HeaderBlock P)
    (key : P.SymmetricKey) (hopMeta : Meta) : Prop :=
  ∃ first rest plain, o.header = first :: rest ∧ first.intoParsed = .ok block ∧
    P.asymmetricDecrypt sk block.data = .ok plain ∧
    (keyMetaCodec P).deserialize plain = some (key, hopMeta)

/-- The tag `unwrap` computes over an opened onion.  SRC: src/lib.rs:555-556 -/
def layerTag (P : Primitives R) (key : P.SymmetricKey) (data : Bytes) (o : Onion P) : P.Tag :=
  P.tag (P.deriveKey .mac key) (macInput data o.header.tail o.forward)

/-- The onion opens and its first block carries the right tag.  SRC: src/lib.rs:551-559 -/
def Authentic (P : Primitives R) (sk : P.PrivateKey) (o : Onion P) (key : P.SymmetricKey)
    (hopMeta : Meta) : Prop :=
  ∃ block, Opens P sk o block key hopMeta ∧ layerTag P key block.data o = block.tag

/-- What opens depends on the bytes of the first block only. -/
theorem Opens.of_first {sk : P.PrivateKey} {o o' : Onion P} {first first' : Header P}
    {rest rest' : List (Header P)} {block : HeaderBlock P} {key : P.SymmetricKey}
    {hopMeta : Meta} (h : Opens P sk o block key hopMeta) (hheader : o.header = first :: rest)
    (hheader' : o'.header = first' :: rest') (hfirst : first'.intoBytes = first.intoBytes) :
    Opens P sk o' block key hopMeta := by
  obtain ⟨f, r, plain, hh, hb, hd, hk⟩ := h
  rw [hheader] at hh
  obtain ⟨rfl, rfl⟩ := List.cons.inj hh
  refine ⟨first', rest', plain, hheader', ?_, hd, hk⟩
  rw [Header.intoParsed_eq, hfirst, ← Header.intoParsed_eq, hb]

/-- Bytes behind a block are not read.  SRC: src/lib.rs:78-80 -/
theorem intoParsed_append {h : Header P} {block : HeaderBlock P} (hparse : h.intoParsed = .ok block)
    (extra : Bytes) : (Header.raw (h.intoBytes ++ extra) : Header P).intoParsed = .ok block := by
  rw [Header.intoParsed_eq, HeaderBlock.unpack, orErr_eq_ok] at hparse ⊢
  exact (HeaderBlock.codec P).deserialize_append hparse extra

/-! ## The shift loop -/

/-- The cipher that a block passes through at place `i` when it is decrypted. -/
def decBlock (P : Primitives R) (keySymmetric : P.SymmetricKey) (i : ℕ) (b : Bytes) : Bytes :=
  P.symmetricDecrypt keySymmetric (blockNonce i) b

/-- The cipher that a block passes through at place `i` when it is encrypted. -/
def encBlock (P : Primitives R) (keySymmetric : P.SymmetricKey) (i : ℕ) (b : Bytes) : Bytes :=
  P.symmetricEncrypt keySymmetric (blockNonce i) b

/-- A range from zero. -/
theorem range_zero (m : ℕ) : range 0 m = List.range m := by
  rw [range, Nat.sub_zero, List.range_eq_range']

/-- A round of the loop puts the next block in its place, decrypted.  SRC: src/lib.rs:561-563 -/
theorem shiftBlock_append (ks : P.SymmetricKey) (done : List (Header P)) (b c : Header P)
    (rest : List (Header P)) : shiftBlock P ks (done ++ b :: c :: rest) done.length =
      .ok (done ++ .raw (decBlock P ks done.length c.intoBytes) :: c :: rest) := by
  unfold shiftBlock
  rw [List.getElem?_append_right (by omega), Nat.add_sub_cancel_left, List.getElem?_cons_succ,
    List.getElem?_cons_zero, orPanic_some, ok_bind]
  dsimp only
  rw [List.set_append_right _ _ le_rfl, Nat.sub_self]
  rfl

/-- INTERNAL: **the loop invariant.**  After `m` rounds the first `m` blocks are the
decrypted blocks from place one on, and the others are untouched.
SRC: src/lib.rs:560-564 -/
theorem foldlM_shiftBlock (ks : P.SymmetricKey) (header : List (Header P)) (m : ℕ)
    (hm : m < header.length) : (List.range m).foldlM (shiftBlock P ks) header =
      .ok ((header.tail.take m).mapIdx (fun i h => .raw (decBlock P ks i h.intoBytes)) ++
        header.drop m) := by
  induction m with
  | zero => rfl
  | succ m ih =>
      have hm' : m < header.length := by omega
      have hlen : ((header.tail.take m).mapIdx
          (fun i h => (.raw (decBlock P ks i h.intoBytes) : Header P))).length = m := by
        simp only [List.length_mapIdx, List.length_take, List.length_tail]
        omega
      have htake : header.tail.take (m + 1) = header.tail.take m ++ [header[m + 1]] := by
        rw [List.take_succ_eq_append_getElem (by simp; omega)]
        simp
      have hstep := shiftBlock_append ks ((header.tail.take m).mapIdx
        (fun i h => (.raw (decBlock P ks i h.intoBytes) : Header P))) header[m] header[m + 1]
        (header.drop (m + 2))
      have hmin : (header.tail.take m).length = m := by rwa [List.length_mapIdx] at hlen
      rw [hlen] at hstep
      rw [List.range_succ, List.foldlM_append, ih hm', ok_bind, List.foldlM_cons,
        List.drop_eq_getElem_cons hm', List.drop_eq_getElem_cons hm, hstep, ok_bind, htake,
        List.mapIdx_concat, hmin, List.append_assoc]
      rfl

/-- INTERNAL: more rounds than there are blocks behind the first one run out of range.
SRC: src/lib.rs:561 -/
theorem foldlM_shiftBlock_of_length_le (ks : P.SymmetricKey) (header : List (Header P)) (m : ℕ)
    (hne : header ≠ []) (hm : header.length ≤ m) :
    (List.range m).foldlM (shiftBlock P ks) header = .error .panic := by
  obtain ⟨l, hl⟩ : ∃ l, header.length = l + 1 :=
    ⟨header.length - 1, by have := List.length_pos_of_ne_nil hne; omega⟩
  obtain ⟨d, rfl⟩ := Nat.exists_eq_add_of_le hm
  rw [show header.length + d = (l + 1) + d by omega, List.range_add, List.foldlM_append,
    List.range_succ, List.foldlM_append, foldlM_shiftBlock ks header l (by omega), ok_bind,
    List.foldlM_cons, shiftBlock, List.getElem?_eq_none (by simp; omega)]
  rfl

/-! ## The result of a successful call -/

/-- How often the loop of `unwrap` runs. -/
def rounds (F : OnionFormat P) : ℕ := wrappingSub 64 F.pathLimit 1

/-- A limit that is not zero does not wrap. -/
theorem rounds_of_pos {F : OnionFormat P} (h : 0 < F.pathLimit) : rounds F = F.pathLimit - 1 :=
  wrappingSub_of_le h (by
    have : F.pathLimit < 2 ^ 32 := F.maxPathLength.toNat_lt
    omega)

/-- What `unwrap` does with the header.  SRC: src/lib.rs:560-569 -/
def shiftHeader (F : OnionFormat P) (header : List (Header P)) (ks : P.SymmetricKey) :
    Exec (List (Header P)) := do
  let shifted ← (List.range (rounds F)).foldlM (shiftBlock P ks) header
  let _ ← orPanic shifted.getLast?
  return shifted.set (shifted.length - 1) (.raw (F.fillBlock ks))

/-- The header after the loop and the write of the last block. -/
def peelHeader (F : OnionFormat P) (ks : P.SymmetricKey) (header : List (Header P)) :
    List (Header P) :=
  let shifted := (header.tail.take (rounds F)).mapIdx
    (fun i h => .raw (decBlock P ks i h.intoBytes)) ++ header.drop (rounds F)
  shifted.set (shifted.length - 1) (.raw (F.fillBlock ks))

/-- The header is shifted when it has more blocks than the loop has rounds.
SRC: src/lib.rs:560-569 -/
theorem shiftHeader_eq {F : OnionFormat P} (ks : P.SymmetricKey) {header : List (Header P)}
    (hlen : rounds F < header.length) :
    shiftHeader F header ks = .ok (peelHeader F ks header) := by
  have hne : (header.tail.take (rounds F)).mapIdx
      (fun i h => (.raw (decBlock P ks i h.intoBytes) : Header P)) ++ header.drop (rounds F) ≠
        [] := by
    simp only [ne_eq, List.append_eq_nil_iff, List.drop_eq_nil_iff, not_and]
    intro _
    omega
  rw [shiftHeader, foldlM_shiftBlock ks header _ hlen, ok_bind,
    List.getLast?_eq_some_getLast hne, orPanic_some, ok_bind]
  rfl

/-- The onion that `unwrap` returns for the given layer key. -/
def peelOnion (F : OnionFormat P) (key : P.SymmetricKey) (o : Onion P) : Onion P where
  header := peelHeader F (P.deriveKey .symEnc key) o.header
  forward := P.symmetricDecrypt (P.deriveKey .symEnc key) nonceFwd o.forward
  backward := peelBackward P key o.backward

/-- What an onion shows beside its backward section: the bytes of its blocks and its forward
section. -/
structure Front where
  blocks : List Bytes
  forward : Bytes
  deriving DecidableEq

/-- The front of an onion. -/
def front (o : Onion P) : Front := ⟨headerBytes o.header, o.forward⟩

/-- The onion of raw blocks that shows the given front. -/
def Front.onion (f : Front) (backward : Backward P) : Onion P :=
  ⟨f.blocks.map .raw, f.forward, backward⟩

/-- The front is what the onion was made of. -/
@[simp] theorem front_onion (f : Front) (backward : Backward P) :
    front (f.onion backward) = f := by
  rw [front, Front.onion, headerBytes_map_raw]

/-- `unwrap` on fronts, for a header of the right number of blocks. -/
def peelFront (F : OnionFormat P) (key : P.SymmetricKey) (f : Front) : Front where
  blocks := shiftOut (decBlock P (P.deriveKey .symEnc key))
    (F.fillBlock (P.deriveKey .symEnc key)) f.blocks
  forward := P.symmetricDecrypt (P.deriveKey .symEnc key) nonceFwd f.forward

/-- INTERNAL: on a header of as many blocks as the limit, the loop is a shift register step.
SRC: src/lib.rs:560-569 -/
theorem peelHeader_of_shape {F : OnionFormat P} (ks : P.SymmetricKey) {header : List (Header P)}
    (hpos : 0 < F.pathLimit) (hlen : header.length = F.pathLimit) :
    peelHeader F ks header =
      (shiftOut (decBlock P ks) (F.fillBlock ks) (headerBytes header)).map .raw := by
  have hr : rounds F = header.tail.length := by
    rw [rounds_of_pos hpos, List.length_tail, hlen]
  have hdrop : (header.drop header.tail.length).length = 1 := by
    rw [List.length_drop, List.length_tail]
    omega
  obtain ⟨last, hlast⟩ := List.length_eq_one_iff.mp hdrop
  rw [peelHeader, hr, List.take_length, hlast, shiftOut, headerBytes]
  simp only [List.length_append, List.length_mapIdx, List.length_singleton, Nat.add_sub_cancel]
  rw [List.set_append_right _ _ (by simp)]
  apply List.ext_getElem
  · simp
  · intro i h₁ h₂
    simp [List.getElem_append]

/-- With as many blocks as the limit, the front and the backward section are peeled each for itself.
-/
theorem peelOnion_of_shape {F : OnionFormat P} (key : P.SymmetricKey) {o : Onion P}
    (hpos : 0 < F.pathLimit) (hlen : o.header.length = F.pathLimit) :
    peelOnion F key o = (peelFront F key (front o)).onion (peelBackward P key o.backward) := by
  rw [peelOnion, peelHeader_of_shape _ hpos hlen]
  rfl

/-- So the front of what is left is the peeled front. -/
theorem front_peelOnion {F : OnionFormat P} (key : P.SymmetricKey) {o : Onion P}
    (hpos : 0 < F.pathLimit) (hlen : o.header.length = F.pathLimit) :
    front (peelOnion F key o) = peelFront F key (front o) := by
  rw [peelOnion_of_shape key hpos hlen, front_onion]

/-! ## The cases of a call -/

variable {F : OnionFormat P} {sk : P.PrivateKey} {o : Onion P} {key : P.SymmetricKey}
  {hopMeta : Meta}

/-- `unwrap` shifts the header with the key that it derives for the symmetric cipher.
SRC: src/lib.rs:545-575 -/
theorem unwrap_eq_shiftHeader (F : OnionFormat P) (sk : P.PrivateKey) (o : Onion P) :
    F.unwrap sk o = do
      let first ← orPanic o.header[0]?
      let block ← first.intoParsed
      let plain ← P.asymmetricDecrypt sk block.data
      let (key, hopMeta) ← orErr ((keyMetaCodec P).deserialize plain) .macMismatch
      if layerTag P key block.data o ≠ block.tag then .error (.err .macMismatch)
      else do
        let header ← shiftHeader F o.header (P.deriveKey .symEnc key)
        let backward ← aeUnwrap P key o.backward
        return (key, hopMeta, ⟨header,
          P.symmetricDecrypt (P.deriveKey .symEnc key) nonceFwd o.forward, backward⟩) := by
  unfold OnionFormat.unwrap OnionFormat.unwrapIn shiftHeader
  simp only [check_release_bind, bind_assoc, pure_bind, range_zero]
  rfl

/-- INTERNAL: `unwrap` behind the first block: the MAC is compared, then the layer is taken off.
SRC: src/lib.rs:554-574 -/
theorem unwrap_of_opens {block : HeaderBlock P} (hopen : Opens P sk o block key hopMeta) :
    F.unwrap sk o =
      if layerTag P key block.data o ≠ block.tag then .error (.err .macMismatch)
      else do
        let header ← shiftHeader F o.header (P.deriveKey .symEnc key)
        let backward ← aeUnwrap P key o.backward
        return (key, hopMeta, ⟨header,
          P.symmetricDecrypt (P.deriveKey .symEnc key) nonceFwd o.forward, backward⟩) := by
  obtain ⟨first, rest, plain, hh, hb, hd, hk⟩ := hopen
  have hfirst : o.header[0]? = some first := by rw [hh, List.getElem?_cons_zero]
  rw [unwrap_eq_shiftHeader, hfirst, orPanic_some, ok_bind, hb, ok_bind, hd, ok_bind, hk,
    orErr_some, ok_bind]

/-- **An authentic onion of enough blocks is unwrapped.**  SRC: src/lib.rs:545-575 -/
theorem unwrap_of_authentic (hw : P.tagCodec.FixedWidth w) (h : Authentic P sk o key hopMeta)
    (hlen : rounds F < o.header.length) :
    F.unwrap sk o = .ok (key, hopMeta, peelOnion F key o) := by
  obtain ⟨block, hopen, htag⟩ := h
  rw [unwrap_of_opens hopen, if_neg (not_not.mpr htag), shiftHeader_eq _ hlen, ok_bind,
    aeUnwrap_eq hw]
  rfl

/-- An authentic onion of too few blocks makes `unwrap` index out of range.
SRC: src/lib.rs:561 -/
theorem unwrap_of_authentic_of_short (h : Authentic P sk o key hopMeta)
    (hlen : o.header.length ≤ rounds F) : F.unwrap sk o = .error .panic := by
  obtain ⟨block, hopen, htag⟩ := h
  have hne : o.header ≠ [] := by
    obtain ⟨first, rest, -, hh, -⟩ := hopen
    rw [hh]
    exact List.cons_ne_nil _ _
  rw [unwrap_of_opens hopen, if_neg (not_not.mpr htag), shiftHeader,
    foldlM_shiftBlock_of_length_le _ _ _ hne hlen, error_bind, error_bind]

/-- An onion without blocks is a panic.  SRC: src/lib.rs:551 -/
theorem unwrap_of_nil (h : o.header = []) : F.unwrap sk o = .error .panic := by
  rw [unwrap_eq_shiftHeader, h]
  rfl

/-- An onion that is unwrapped opens.  SRC: src/lib.rs:551-553 -/
theorem opens_of_unwrap {r : P.SymmetricKey × Meta × Onion P} (h : F.unwrap sk o = .ok r) :
    ∃ block key hopMeta, Opens P sk o block key hopMeta := by
  rw [unwrap_eq_shiftHeader, bind_eq_ok] at h
  obtain ⟨first, hfirst, h⟩ := h
  obtain ⟨block, hblock, h⟩ := bind_eq_ok.mp h
  obtain ⟨plain, hplain, h⟩ := bind_eq_ok.mp h
  obtain ⟨⟨key, hopMeta⟩, hkm, -⟩ := bind_eq_ok.mp h
  rw [orPanic_eq_ok] at hfirst
  rw [orErr_eq_ok] at hkm
  obtain ⟨rest, hrest⟩ : ∃ rest, o.header = first :: rest := by
    cases hh : o.header with
    | nil => simp [hh] at hfirst
    | cons a rest =>
        rw [hh, List.getElem?_cons_zero] at hfirst
        exact ⟨rest, by rw [Option.some.inj hfirst]⟩
  exact ⟨block, key, hopMeta, first, rest, plain, hrest, hblock, hplain, hkm⟩

/-- **What is unwrapped is authentic**, has enough blocks, and is peeled.
SRC: src/lib.rs:545-575 -/
theorem authentic_of_unwrap (hw : P.tagCodec.FixedWidth w) {o' : Onion P}
    (h : F.unwrap sk o = .ok (key, hopMeta, o')) :
    Authentic P sk o key hopMeta ∧ rounds F < o.header.length ∧ o' = peelOnion F key o := by
  obtain ⟨block, k, m, hopen⟩ := opens_of_unwrap h
  by_cases htag : layerTag P k block.data o = block.tag
  · have hauth : Authentic P sk o k m := ⟨block, hopen, htag⟩
    rcases Nat.lt_or_ge (rounds F) o.header.length with hlen | hlen
    · rw [unwrap_of_authentic hw hauth hlen] at h
      cases h
      exact ⟨hauth, hlen, rfl⟩
    · rw [unwrap_of_authentic_of_short hauth hlen] at h
      cases h
  · rw [unwrap_of_opens hopen, if_pos htag] at h
    cases h

/-- Whether an onion is authentic does not depend on its backward section.
SRC: src/lib.rs:551-559 -/
theorem Authentic.of_front_eq {o' : Onion P} (h : Authentic P sk o key hopMeta)
    (hfront : front o' = front o) : Authentic P sk o' key hopMeta := by
  obtain ⟨block, hopen, htag⟩ := h
  have hblocks : headerBytes o'.header = headerBytes o.header := congrArg Front.blocks hfront
  have hforward : o'.forward = o.forward := congrArg Front.forward hfront
  obtain ⟨first, rest, -, hh, -⟩ := id hopen
  obtain ⟨first', rest', hh'⟩ : ∃ first' rest', o'.header = first' :: rest' := by
    apply List.exists_cons_of_ne_nil
    rintro hnil
    rw [hh, hnil] at hblocks
    cases hblocks
  rw [hh, hh'] at hblocks
  obtain ⟨hfirst, hrest⟩ := List.cons.inj hblocks
  refine ⟨block, hopen.of_first hh hh' hfirst, ?_⟩
  have hrest' : headerBytes rest' = headerBytes rest := hrest
  rw [← htag, layerTag, layerTag, hh, hh', hforward, macInput, macInput, List.tail_cons,
    List.tail_cons, hrest']

/-- INTERNAL: a fault of the public-key decryption is one of `unwrap`.  SRC: src/lib.rs:552 -/
theorem unwrap_of_decrypt_error {block : HeaderBlock P} {fault : Fault} (h : FirstBlock o block)
    (hdec : P.asymmetricDecrypt sk block.data = .error fault) :
    F.unwrap sk o = .error fault := by
  obtain ⟨first, rest, hh, hb⟩ := h
  have hfirst : o.header[0]? = some first := by rw [hh, List.getElem?_cons_zero]
  rw [unwrap_eq_shiftHeader, hfirst, orPanic_some, ok_bind, hb, ok_bind, hdec, error_bind]

/-- INTERNAL: an onion that is not authentic is answered with an `Err`, provided the public-key
decryption returns on its first block.  SRC: src/lib.rs:551-559 -/
theorem unwrap_of_not_authentic
    (hdec : ∀ block, FirstBlock o block → ∃ plain, P.asymmetricDecrypt sk block.data = .ok plain)
    (hne : o.header ≠ []) (h : ∀ key hopMeta, ¬ Authentic P sk o key hopMeta) :
    ∃ e, F.unwrap sk o = .error (.err e) := by
  obtain ⟨first, rest, hh⟩ := List.exists_cons_of_ne_nil hne
  have hfirst : o.header[0]? = some first := by rw [hh, List.getElem?_cons_zero]
  cases hb : first.intoParsed with
  | error fault =>
      have hfault : fault = .err .serializationError := by
        rw [Header.intoParsed_eq, HeaderBlock.unpack] at hb
        cases hu : (HeaderBlock.codec P).deserialize first.intoBytes with
        | none => rw [hu] at hb; cases hb; rfl
        | some b => rw [hu] at hb; cases hb
      refine ⟨.serializationError, ?_⟩
      rw [unwrap_eq_shiftHeader, hfirst, orPanic_some, ok_bind, hb, error_bind, hfault]
  | ok block =>
      obtain ⟨plain, hd⟩ := hdec block ⟨first, rest, hh, hb⟩
      cases hk : (keyMetaCodec P).deserialize plain with
      | none =>
          refine ⟨.macMismatch, ?_⟩
          rw [unwrap_eq_shiftHeader, hfirst, orPanic_some, ok_bind, hb, ok_bind, hd, ok_bind, hk,
            orErr_none, error_bind]
      | some p =>
          have hopen : Opens P sk o block p.1 p.2 := ⟨first, rest, plain, hh, hb, hd, hk⟩
          refine ⟨.macMismatch, ?_⟩
          rw [unwrap_of_opens hopen, if_pos]
          exact fun htag => h p.1 p.2 ⟨block, hopen, htag⟩

/-- INTERNAL: `unwrap` does not panic where the public-key decryption returns, the header is not
empty and, if the onion is authentic, has as many blocks as the limit.
SRC: src/lib.rs:545-575 -/
theorem unwrap_noPanic (hw : P.tagCodec.FixedWidth w)
    (hdec : ∀ block, FirstBlock o block → ∃ plain, P.asymmetricDecrypt sk block.data = .ok plain)
    (hne : o.header ≠ [])
    (hlen : ∀ key hopMeta, Authentic P sk o key hopMeta → o.header.length = F.pathLimit) :
    F.unwrap sk o ≠ .error .panic := by
  intro hpanic
  by_cases hauth : ∃ key hopMeta, Authentic P sk o key hopMeta
  · obtain ⟨key, hopMeta, hauth⟩ := hauth
    have hshape : o.header.length = F.pathLimit := hlen _ _ hauth
    have hpos : 0 < F.pathLimit := hshape ▸ List.length_pos_of_ne_nil hne
    have hrounds : rounds F < o.header.length := by
      rw [rounds_of_pos hpos]
      omega
    rw [unwrap_of_authentic hw hauth hrounds] at hpanic
    cases hpanic
  · obtain ⟨e, he⟩ := unwrap_of_not_authentic (F := F) hdec hne
      fun key hopMeta h => hauth ⟨key, hopMeta, h⟩
    rw [he] at hpanic
    cases hpanic

end Eror.Analysis
