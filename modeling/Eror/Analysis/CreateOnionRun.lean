import Eror.Analysis.Interleaving
import Eror.Analysis.PathErrors
import Eror.Analysis.PublicKeyEncryption
import Eror.Model.CreateOnion

/-!
# The simulation program is correct

The key store and the table of private keys are in step after any number of rounds of the setup
(`keysetup_inStep`), so the node that an onion is sent to has the private key for it.  With that
the loop over the nodes does, round by round, what the network does (`mixLoop_run`), and the
program ends for every pair of paths in what `createOnion_ends` says.

The program uses `EcPrimitives` with the keys of `generate_keypair`, where a public-key ciphertext
opens unless its hash is the negative of the private key.  Nothing rules that out, and the program
does not look: it is asked for of the ciphertexts that this very run makes (`formSeals`).
-/

set_option autoImplicit false

namespace Eror.Analysis

open Library Model

variable {R : Type} {P : Primitives R} {w : ℕ} {F : OnionFormat P}

/-! ## The setup -/

/-- An address has a public key in the key store if and only if it has a private key in the table
beside it, and the two were generated together. -/
def InStep (keygen : R → (P.PrivateKey × P.PublicKey) × R) (tables : KeyTables P) : Prop :=
  ∀ a, (tables.pki.get a = none ∧ tables.privateKeys a = none) ∨
    ∃ rng, tables.pki.get a = some (keygen rng).1.2 ∧
      tables.privateKeys a = some (keygen rng).1.1

/-- One round of the setup keeps the tables in step.  SRC: examples/create_onion.rs:10-13 -/
theorem inStep_generateNode [Rng R] {keygen : R → (P.PrivateKey × P.PublicKey) × R}
    {s : KeyTables P × R} (h : InStep keygen s.1) :
    InStep keygen (generateNode keygen s).1 := by
  intro a
  by_cases ha : a = (genAddress s.2).1
  · exact .inr ⟨(genAddress s.2).2, if_pos ha, if_pos ha⟩
  · have hpki : (generateNode keygen s).1.pki.get a = s.1.pki.get a := if_neg ha
    have hkeys : (generateNode keygen s).1.privateKeys a = s.1.privateKeys a := if_neg ha
    rw [hpki, hkeys]
    exact h a

/-- **The two tables are in step**, whatever is drawn: an address that is drawn twice has its new
key in both.  SRC: examples/create_onion.rs:8-14 -/
theorem keysetup_inStep [Rng R] (keygen : R → (P.PrivateKey × P.PublicKey) × R) (n : ℕ) (rng : R) :
    InStep keygen (keysetup keygen n rng).1 := by
  induction n with
  | zero => exact fun a => .inl ⟨rfl, rfl⟩
  | succ n ih =>
      rw [keysetup, Function.iterate_succ_apply']
      exact inStep_generateNode ih

/-! ## The loop over the nodes -/

/-- A round of the loop is a turn of the node whose private key is found.
SRC: examples/create_onion.rs:33-74 -/
theorem mixRound_of_node {sk : Address → P.PrivateKey}
    {privateKeys : Address → Option P.PrivateKey} {expected : ExpectedResponse P} {reply : Bytes}
    {fl : Flight P} {e : Event P} (hkey : privateKeys fl.node = some (sk fl.node))
    (h : Network.node ⟨F, sk, onlyExpected expected, reply⟩ fl = .ok e) :
    mixRound F privateKeys expected reply fl = .ok (e.outcome, e.sent) := by
  rw [Network.node_eq] at h
  unfold mixRound
  dsimp only at h
  rw [hkey, orPanic_some, ok_bind]
  obtain ⟨r, hproc, h⟩ := bind_eq_ok.mp h
  rw [hproc, ok_bind]
  cases r with
  | hop next onion =>
      cases h
      rfl
  | sender payload =>
      cases h
      rfl
  | receiver payload =>
      obtain ⟨r, hanswer, h⟩ := bind_eq_ok.mp h
      cases h
      exact bind_eq_ok.mpr ⟨r, hanswer, rfl⟩

/-- INTERNAL: **the loop does what the network does**, as long as the nodes that are met have
private keys. -/
theorem mixLoop_run {sk : Address → P.PrivateKey} {privateKeys : Address → Option P.PrivateKey}
    {expected : ExpectedResponse P} {reply : Bytes} {n : ℕ} {fl : Flight P}
    {events : List (Event P)} {last : Option (ℕ × Flight P)}
    (hrun : ((Network.mk F sk (onlyExpected expected) reply).machine (noTampering P)).run n
      (0, fl) = .ok (events, last))
    (hkeys : ∀ e ∈ events, privateKeys e.received.node = some (sk e.received.node)) :
    (mixLoop F privateKeys expected reply).run n fl =
      .ok (events.map Event.outcome, last.map Prod.snd) := by
  let net : Network P := ⟨F, sk, onlyExpected expected, reply⟩
  have hstep : ∀ (s : ℕ × Flight P) (e : Event P) (next : Option (ℕ × Flight P)),
      (net.machine (noTampering P)).step s = .ok (e, next) →
      privateKeys e.received.node = some (sk e.received.node) →
      (mixLoop F privateKeys expected reply).step s.2 = .ok (e.outcome, next.map Prod.snd) := by
    rintro ⟨link, fl⟩ e next hstep hkey
    obtain ⟨e', hnode, he'⟩ := bind_eq_ok.mp hstep
    cases he'
    have hfl : e.received = fl := node_received hnode
    rw [Option.map_map]
    refine (mixRound_of_node (hfl ▸ hkey) hnode).trans ?_
    cases e.sent <;> rfl
  exact Machine.run_mirror hstep hrun hkeys

/-! ## The program -/

/-- What the program comes to.  SRC: examples/create_onion.rs:17-75 -/
inductive Ends (limit : UInt32) (tables : KeyTables P) (fwd bwd : List Address)
    (payload reply : Bytes) : Exec (List Outcome × Option (Flight P)) → Prop
  | tooLong (h : TooLong ⟨limit, tables.pki⟩ fwd bwd) :
      Ends limit tables fwd bwd payload reply (.error (.err .pathTooLong))
  | empty (h : ¬ TooLong ⟨limit, tables.pki⟩ fwd bwd) (hnil : fwd = [] ∨ bwd = []) :
      Ends limit tables fwd bwd payload reply (.error .panic)
  | missing (h : ¬ TooLong ⟨limit, tables.pki⟩ fwd bwd) (hfwd : fwd ≠ []) (hbwd : bwd ≠ [])
      (hmissing : ∃ a ∈ fwd ++ bwd, tables.pki.get a = none) :
      Ends limit tables fwd bwd payload reply (.error (.err .keyNotFound))
  | delivered (h : ¬ TooLong ⟨limit, tables.pki⟩ fwd bwd) (hfwd : fwd ≠ []) (hbwd : bwd ≠ [])
      (hknown : ∀ a ∈ fwd ++ bwd, (tables.pki.get a).isSome) :
      Ends limit tables fwd bwd payload reply (.ok (reports fwd bwd payload reply, none))

/-- INTERNAL: the paths are usable, the ciphertexts open, and the loop goes through to the
sender. -/
theorem createOnion_delivers [Rng R] (hP : P.Lawful) (hW : P.Widths 16 40) {limit : UInt32}
    {tables : KeyTables P} {sk : Address → P.PrivateKey} {fwd bwd : List Address}
    (hsk : ∀ a ∈ fwd ++ bwd, tables.privateKeys a = some (sk a))
    (h : ¬ TooLong ⟨limit, tables.pki⟩ fwd bwd) (hfwd : fwd ≠ []) (hbwd : bwd ≠ [])
    (hknown : ∀ a ∈ fwd ++ bwd, (tables.pki.get a).isSome) {payload : Bytes}
    (hpayload : payload.length < 2 ^ 64) (reply : Bytes) {rng : R}
    (hopens : ∀ seals, formSeals ⟨limit, tables.pki⟩ fwd bwd payload rng = .ok seals →
      ∀ p : HopPlan P, p.Sealed ⟨limit, tables.pki⟩ → p.address ∈ fwd ++ bwd →
        p.sealed ∈ seals → p.Opens sk) :
    createOnion limit tables fwd bwd payload reply (fwd.length + bwd.length) rng =
      .ok (reports fwd bwd payload reply, none) := by
  let F : OnionFormat P := ⟨limit, tables.pki⟩
  obtain ⟨hfwd', hbwd'⟩ := not_or.mp h
  rw [not_lt] at hfwd' hbwd'
  obtain ⟨⟨⟨o, expected⟩, rng'⟩, hform⟩ := formOnion_total (F := F) hW.tag hfwd hbwd hfwd' hbwd'
    (fun a ha => hknown a (List.mem_append_left bwd ha))
    (fun a ha => hknown a (List.mem_append_right fwd ha)) payload rng
  obtain ⟨key, replyTo, back₁, backₙ, plans, hformed, hseals⟩ :=
    formedBy_of_formOnion hP hW.tag hfwd hbwd hfwd' hbwd' hform
  have hplans : ∀ p ∈ plans, p.Opens sk := by
    intro p hp
    obtain ⟨hsealed, hmem⟩ := hformed.isSealed p hp
    exact hopens _ hseals p hsealed hmem (List.mem_map_of_mem hp)
  obtain ⟨legsF, turn, legsB, home, htravels⟩ := FormedBy.travels
    ⟨F, sk, onlyExpected expected, reply⟩ hP hW rfl hformed hplans hfwd hbwd hfwd' hbwd' hpayload
  have hfirst := List.head?_eq_some_head hfwd
  obtain ⟨events, halone⟩ := deliveryRun_of_travels hP hW.tag hbwd htravels hfirst
  rw [createOnion, hform, ok_bind]
  dsimp only
  rw [hfirst, orPanic_some, ok_bind, mixLoop_run halone.run, halone.outcomes]
  · rfl
  · intro e he
    apply hsk
    rw [← halone.nodes]
    exact List.mem_map_of_mem he

/-- INTERNAL: each of the ciphertexts is sealed to the key of its address in the store. -/
theorem sealed_of_formSeals [Rng R] (hP : P.Lawful) (hW : P.Widths 16 40) {fwd bwd : List Address}
    (hfwd : fwd ≠ []) (hbwd : bwd ≠ []) (hlong : ¬ TooLong F fwd bwd)
    (hknown : ∀ a ∈ fwd ++ bwd, (F.pki.get a).isSome) {payload : Bytes} {rng : R}
    {seals : List (Address × Bytes)} (h : formSeals F fwd bwd payload rng = .ok seals) :
    ∀ s ∈ seals, ∃ p : HopPlan P, p.Sealed F ∧ p.sealed = s := by
  obtain ⟨hfwd', hbwd'⟩ := not_or.mp hlong
  rw [not_lt] at hfwd' hbwd'
  obtain ⟨⟨⟨o, expected⟩, rng'⟩, hform⟩ := formOnion_total (F := F) hW.tag hfwd hbwd hfwd' hbwd'
    (fun a ha => hknown a (List.mem_append_left bwd ha))
    (fun a ha => hknown a (List.mem_append_right fwd ha)) payload rng
  obtain ⟨key, replyTo, back₁, backₙ, plans, hformed, hseals⟩ :=
    formedBy_of_formOnion hP hW.tag hfwd hbwd hfwd' hbwd' hform
  obtain rfl : plans.map HopPlan.sealed = seals := Except.ok.inj (hseals.symm.trans h)
  intro s hs
  obtain ⟨p, hp, rfl⟩ := List.mem_map.mp hs
  exact ⟨p, (hformed.isSealed p hp).1, rfl⟩

/-! ## The program over `EcPrimitives` -/

section EcPrimitives

variable [Rng R] {C : EcCrates R}

/-- No ciphertext that `form_onion` makes on these paths is degenerate for the private key in the
table.  SRC: src/primitives.rs:246-247 -/
def NoneDegenerate (limit : UInt32) (tables : KeyTables C.ecPrimitives) (fwd bwd : List Address)
    (payload : Bytes) (rng : R) : Prop :=
  ∀ seals, formSeals ⟨limit, tables.pki⟩ fwd bwd payload rng = .ok seals →
    ∀ s ∈ seals, ∀ sk : C.Scalar, tables.privateKeys s.1 = some sk → ¬ Degenerate sk s.2

/-- INTERNAL: the ciphertexts open for the keys of the table. -/
theorem opens_of_noneDegenerate (hC : C.Lawful) {limit : UInt32}
    {tables : KeyTables C.ecPrimitives} (htables : InStep C.generateKeypair tables)
    {fwd bwd : List Address} {payload : Bytes} {rng : R}
    (hnone : NoneDegenerate limit tables fwd bwd payload rng)
    {sk : Address → C.ecPrimitives.PrivateKey}
    (hsk : ∀ a ∈ fwd ++ bwd, tables.privateKeys a = some (sk a))
    {seals : List (Address × Bytes)}
    (hseals : formSeals ⟨limit, tables.pki⟩ fwd bwd payload rng = .ok seals)
    {p : HopPlan C.ecPrimitives} (hsealed : p.Sealed ⟨limit, tables.pki⟩)
    (hmem : p.address ∈ fwd ++ bwd) (hp : p.sealed ∈ seals) : p.Opens sk := by
  obtain ⟨pk, rng', hget, hcipher⟩ := hsealed
  have hdegenerate := hnone seals hseals _ hp (sk p.address) (hsk _ hmem)
  rcases htables p.address with ⟨hmissing, -⟩ | ⟨rng₀, hpk, hkey⟩
  · have hget' : tables.pki.get p.address = some pk := hget
    rw [hmissing] at hget'
    cases hget'
  · obtain rfl : pk = C.mul C.base (C.generateKeypair rng₀).1.1 :=
      Option.some.inj (hget.symm.trans hpk)
    have hsame : sk p.address = (C.generateKeypair rng₀).1.1 :=
      Option.some.inj ((hsk _ hmem).symm.trans hkey)
    rw [HopPlan.Opens, hsame, hcipher]
    apply asymmetricDecrypt_of_not_degenerate hC (keyMeta_length_lt ecPrimitives_widths _)
    rwa [HopPlan.sealed, hsame, hcipher] at hdegenerate

/-- **What the program comes to**, whatever its setup draws, in any number of rounds, and whatever
paths it is given: it reports a path that is too long or has an unknown address, panics on an empty
path, and otherwise prints what each node of the two paths makes of the onion, the payload and the
reply among it, and stops.  The ciphertexts that it makes are not to be degenerate.
SRC: examples/create_onion.rs:6-78 -/
theorem createOnion_ends (hC : C.Lawful) (nodes : ℕ) (seed : R) (limit : UInt32)
    (fwd bwd : List Address) (payload reply : Bytes) (hpayload : payload.length < 2 ^ 64) (rng : R)
    (hnone : NoneDegenerate limit (programTables C nodes seed) fwd bwd payload rng) :
    Ends limit (programTables C nodes seed) fwd bwd payload reply
      (createOnion limit (programTables C nodes seed) fwd bwd payload reply
        (fwd.length + bwd.length) rng) := by
  have hP : C.ecPrimitives.Lawful := ecPrimitives_lawful hC
  have hW : C.ecPrimitives.Widths 16 40 := ecPrimitives_widths
  have htables : InStep C.generateKeypair (programTables C nodes seed) :=
    keysetup_inStep (P := C.ecPrimitives) C.generateKeypair nodes seed
  generalize programTables C nodes seed = tables at htables hnone ⊢
  by_cases hlong : TooLong ⟨limit, tables.pki⟩ fwd bwd
  · rw [createOnion, formOnion_of_tooLong hlong, error_bind]
    exact .tooLong hlong
  by_cases hnil : fwd = [] ∨ bwd = []
  · rw [createOnion, formOnion_of_nil hlong hnil, error_bind]
    exact .empty hlong hnil
  obtain ⟨hfwd, hbwd⟩ := not_or.mp hnil
  by_cases hmissing : ∃ a ∈ fwd ++ bwd, tables.pki.get a = none
  · rw [createOnion, formOnion_of_missing hW.tag hlong hfwd hbwd hmissing, error_bind]
    exact .missing hlong hfwd hbwd hmissing
  · have hknown : ∀ a ∈ fwd ++ bwd, (tables.pki.get a).isSome := by
      intro a ha
      by_contra hnone
      exact hmissing ⟨a, ha, Option.not_isSome_iff_eq_none.mp hnone⟩
    -- a total choice of private keys that agrees with the table
    let sk : Address → C.ecPrimitives.PrivateKey :=
      fun a => (tables.privateKeys a).getD (0 : C.Scalar)
    have hsk : ∀ a ∈ fwd ++ bwd, tables.privateKeys a = some (sk a) := by
      intro a ha
      rcases htables a with ⟨hpki, -⟩ | ⟨rng₀, -, hkey⟩
      · have hsome := hknown a ha
        rw [hpki] at hsome
        cases hsome
      · exact hkey.trans (congrArg some (congrArg (Option.getD · (0 : C.Scalar)) hkey).symm)
    rw [createOnion_delivers hP hW hsk hlong hfwd hbwd hknown hpayload reply
      fun seals hseals p hsealed hmem hp =>
        opens_of_noneDegenerate hC htables hnone hsk hseals hsealed hmem hp]
    exact .delivered hlong hfwd hbwd hknown

end EcPrimitives

/-- The private keys of the sample setup are five and three. -/
theorem programTables_sample {a : Address} {sk : ZMod 7}
    (h : (programTables sampleCrates 2 1).privateKeys a = some sk) : sk = 5 ∨ sk = 3 := by
  have hkeys : (programTables sampleCrates 2 1).privateKeys a =
      if a = (genAddress (34 : ℕ)).1 then some ((66 : ℕ) : ZMod 7)
      else if a = (genAddress (1 : ℕ)).1 then some ((33 : ℕ) : ZMod 7) else none := rfl
  rw [hkeys] at h
  split at h
  · cases h
    right
    decide
  · split at h
    · cases h
      left
      decide
    · cases h

/-- Two nodes are set up, and an onion goes from the first to the second.  A ciphertext hashes to
three, the negative of four, and four is not a private key of this setup. -/
theorem createOnion_ends_sample :
    createOnion 3 (programTables sampleCrates 2 1) [(genAddress (1 : ℕ)).1]
        [(genAddress (34 : ℕ)).1] [1, 2] [5] 2 7 =
      .ok ([.receiver [1, 2] (genAddress (34 : ℕ)).1, .sender [5]], none) := by
  have hknown : ∀ a ∈ [(genAddress (1 : ℕ)).1] ++ [(genAddress (34 : ℕ)).1],
      ((programTables sampleCrates 2 1).pki.get a).isSome := by
    intro a ha
    rcases List.mem_cons.mp ha with rfl | ha
    · rfl
    · rw [List.mem_singleton.mp ha]
      rfl
  have hlong : ¬ TooLong ⟨3, (programTables sampleCrates 2 1).pki⟩ [(genAddress (1 : ℕ)).1]
      [(genAddress (34 : ℕ)).1] := by
    decide
  have hP := ecPrimitives_lawful sampleCrates_lawful
  have hW : sampleCrates.ecPrimitives.Widths 16 40 := ecPrimitives_widths
  have hnone : NoneDegenerate 3 (programTables sampleCrates 2 1) [(genAddress (1 : ℕ)).1]
      [(genAddress (34 : ℕ)).1] [1, 2] 7 := by
    rintro seals hseals s hs sk hsk ⟨u, cipher, hread, hzero⟩
    obtain ⟨p, ⟨pk, rng, -, hcipher⟩, rfl⟩ := sealed_of_formSeals hP hW (List.cons_ne_nil _ _)
      (List.cons_ne_nil _ _) hlong hknown hseals s hs
    have hpk : sampleCrates.mul sampleCrates.base pk = pk := one_mul (M := ZMod 7) pk
    have hsealed := deserializeSealed_encryptWith sampleCrates_lawful pk
      (sampleCrates.randomScalar rng).1 (keyMeta_length_lt hW (p.key, p.hopMeta))
    rw [hpk] at hsealed
    have hsame := (hread.symm.trans (congrArg sampleCrates.deserializeSealed hcipher)).trans hsealed
    obtain ⟨rfl, rfl⟩ := Prod.mk.inj (Option.some.inj hsame)
    rw [sampleCrates_hashToScalar, sampleCrates.symmetricEncrypt_length,
      keyMeta_encode_length hW] at hzero
    rcases programTables_sample hsk with rfl | rfl
    · exact absurd hzero (by decide : ((52 : ℕ) : ZMod 7) + 5 ≠ 0)
    · exact absurd hzero (by decide : ((52 : ℕ) : ZMod 7) + 3 ≠ 0)
  have hends := createOnion_ends sampleCrates_lawful 2 1 3 [(genAddress (1 : ℕ)).1]
    [(genAddress (34 : ℕ)).1] [1, 2] [5] (by decide) 7 hnone
  rw [List.length_singleton, List.length_singleton] at hends
  generalize createOnion 3 (programTables sampleCrates 2 1) [(genAddress (1 : ℕ)).1]
    [(genAddress (34 : ℕ)).1] [1, 2] [5] (1 + 1) 7 = r at hends ⊢
  cases hends with
  | tooLong h => exact absurd h hlong
  | empty h hnil => simp at hnil
  | missing h hfwd hbwd hmissing =>
      obtain ⟨a, ha, hnone⟩ := hmissing
      have hsome := hknown a ha
      rw [hnone] at hsome
      cases hsome
  | delivered h hfwd hbwd hknown => rfl

end Eror.Analysis
