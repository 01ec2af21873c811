import Eror.Analysis.WrapLayer

/-!
# The public-key ciphertexts of `onionize`

The first stage of `onionize` encrypts to each hop its key and its meta-information.
`HopPlan` keeps together what belongs to one hop, and `metaCiphers_spec` says that the stage
computes a list of them in which each plan is sealed to its hop and names the next one.  With
every hop registered the stage does not fail (`metaCiphers_total`).
-/

set_option autoImplicit false

namespace Eror.Analysis

open Library Model

variable {R : Type} {P : Primitives R}

/-! ## Sequences that draw -/

section Draw

variable {α β : Type} {rng rng' : R}

/-- A computation with draws returns a value when both of its parts do. -/
theorem draw_bind_eq_ok {x : Draw R α} {f : α → Draw R β} {b : β × R} :
    (x >>= f) rng = .ok b ↔ ∃ a rng', x rng = .ok (a, rng') ∧ f a rng' = .ok b := by
  change (x rng >>= fun p => f p.1 p.2) = _ ↔ _
  rw [bind_eq_ok]
  exact ⟨fun ⟨⟨a, rng'⟩, hx, hf⟩ => ⟨a, rng', hx, hf⟩, fun ⟨a, rng', hx, hf⟩ => ⟨(a, rng'), hx, hf⟩⟩

/-- What has returned a value goes on with it, and with the generator that is left. -/
theorem draw_bind_ok {x : Draw R α} {f : α → Draw R β} {a : α} (h : x rng = .ok (a, rng')) :
    (x >>= f) rng = f a rng' := by
  change (x rng >>= fun p => f p.1 p.2) = _
  rw [h, ok_bind]

/-- What has ended in a fault does not go on. -/
theorem draw_bind_error {x : Draw R α} {f : α → Draw R β} {e : Fault} (h : x rng = .error e) :
    (x >>= f) rng = .error e := by
  change (x rng >>= fun p => f p.1 p.2) = _
  rw [h, error_bind]

/-- A call without draws ends in its own fault. -/
theorem draw_lift_error {x : Exec α} {e : Fault} (h : x = .error e) :
    (liftM x : Draw R α) rng = .error e := by
  rw [h]
  rfl

/-- A call without draws leaves the generator as it is. -/
theorem draw_lift_eq_ok {x : Exec α} {b : α × R} :
    (liftM x : Draw R α) rng = .ok b ↔ x = .ok b.1 ∧ b.2 = rng := by
  cases x with
  | error e => exact ⟨nofun, nofun⟩
  | ok a =>
      constructor
      · intro h
        cases h
        exact ⟨rfl, rfl⟩
      · rintro ⟨h, h'⟩
        cases h
        cases h'
        rfl

/-- A call without draws returns its value. -/
theorem draw_lift_ok {x : Exec α} {a : α} (h : x = .ok a) :
    (liftM x : Draw R α) rng = .ok (a, rng) :=
  draw_lift_eq_ok.mpr ⟨h, rfl⟩

/-- A value draws nothing. -/
theorem draw_pure_eq_ok {a : α} {b : α × R} :
    (pure a : Draw R α) rng = .ok b ↔ b = (a, rng) :=
  ⟨fun h => (Except.ok.inj h).symm, fun h => h ▸ rfl⟩

end Draw

/-! ## Plans -/

/-- What belongs to one hop of a path: where it is, the key and the meta-information for it, and
their public-key ciphertext. -/
structure HopPlan (P : Primitives R) where
  address : Address
  key : P.SymmetricKey
  hopMeta : Meta
  cipher : Bytes

/-- The ciphertext was encrypted to the hop.  SRC: src/lib.rs:450-453 -/
def HopPlan.Sealed (F : OnionFormat P) (p : HopPlan P) : Prop :=
  ∃ pk rng, F.pki.get p.address = some pk ∧
    p.cipher = (P.asymmetricEncrypt rng pk ((keyMetaCodec P).encode (p.key, p.hopMeta))).1

/-- The plan is for a relay that passes the onion on to the hop of the next plan.
SRC: src/lib.rs:451 -/
def HopPlan.Relays (p q : HopPlan P) : Prop := p.hopMeta = ⟨.hop, q.address⟩

/-- The plans are those of the given keys and hops, each sealed to its hop and each but the last
for a relay to the next hop. -/
structure Planned (F : OnionFormat P) (keys : List P.SymmetricKey) (hops : List Address)
    (ciphers : List Bytes) (plans : List (HopPlan P)) : Prop where
  keys : plans.map HopPlan.key = keys
  hops : plans.map HopPlan.address = hops
  ciphers : plans.map HopPlan.cipher = ciphers
  isSealed : ∀ p ∈ plans, p.Sealed F
  relays : plans.IsChain HopPlan.Relays

variable {F : OnionFormat P} {rng : R}

/-- A ciphertext that is returned is a sealed one.  SRC: src/lib.rs:450-453 -/
theorem metaCipher_spec {key : P.SymmetricKey} {address : Address} {hopMeta : Meta}
    {r : Bytes × R} (h : F.metaCipher key address hopMeta rng = .ok r) :
    HopPlan.Sealed F ⟨address, key, hopMeta, r.1⟩ := by
  unfold OnionFormat.metaCipher at h
  obtain ⟨pk, rng', hget, h⟩ := draw_bind_eq_ok.mp h
  obtain ⟨hpk, -⟩ := draw_lift_eq_ok.mp hget
  refine ⟨pk, rng', orErr_eq_ok.mp hpk, ?_⟩
  exact (congrArg Prod.fst (Except.ok.inj h)).symm

/-- INTERNAL: the ciphertexts of the relays, with the last hop still to come.
SRC: src/lib.rs:449-454 -/
theorem metaCiphersHop_spec {key : P.SymmetricKey} {keys : List P.SymmetricKey} {a : Address}
    {hops : List Address} (hlen : keys.length = hops.length) (last : HopPlan P)
    (hkey : (key :: keys).getLast? = some last.key)
    (haddress : (a :: hops).getLast? = some last.address) (hlast : last.Sealed F)
    {ciphers : List Bytes} {rng' : R}
    (h : F.metaCiphersHop (key :: keys) (a :: hops) rng = .ok (ciphers, rng')) :
    ∃ p plans, Planned F (key :: keys) (a :: hops) (ciphers ++ [last.cipher]) (p :: plans) ∧
      (p :: plans).getLast? = some last := by
  induction hops generalizing key keys a rng ciphers with
  | nil =>
      obtain rfl : keys = [] := List.eq_nil_of_length_eq_zero hlen
      obtain rfl : key = last.key := by simpa using hkey
      obtain rfl : a = last.address := by simpa using haddress
      cases h
      refine ⟨last, [], ⟨rfl, rfl, rfl, ?_, List.isChain_singleton _⟩, rfl⟩
      intro p hp
      rwa [List.mem_singleton.mp hp]
  | cons b hops ih =>
      obtain ⟨key', keys, rfl⟩ := List.exists_cons_of_length_eq_add_one hlen
      unfold OnionFormat.metaCiphersHop at h
      rw [List.drop_one, List.tail_cons, List.zip_cons_cons, List.zip_cons_cons,
        List.mapM_cons] at h
      obtain ⟨c, rng₁, hc, h⟩ := draw_bind_eq_ok.mp h
      obtain ⟨cs, rng₂, hcs, h⟩ := draw_bind_eq_ok.mp h
      cases draw_pure_eq_ok.mp h
      obtain ⟨q, plans, hq, hqlast⟩ := ih (by simpa using hlen) (by simpa using hkey)
        (by simpa using haddress) hcs
      refine ⟨⟨a, key, ⟨.hop, b⟩, c⟩, q :: plans, ⟨?_, ?_, ?_, ?_, ?_⟩, by simpa using hqlast⟩
      · rw [List.map_cons, hq.keys]
      · rw [List.map_cons, hq.hops]
      · rw [List.map_cons, hq.ciphers]
        rfl
      · intro p hp
        rcases List.mem_cons.mp hp with rfl | hp
        · exact metaCipher_spec hc
        · exact hq.isSealed p hp
      · refine List.isChain_cons_cons.mpr ⟨?_, hq.relays⟩
        have hb : q.address = b := (List.cons.inj hq.hops).1
        rw [HopPlan.Relays, hb]

/-- **The ciphertexts of all hops** are those of a list of plans, the last of which holds the
given meta-information.  SRC: src/lib.rs:448-460 -/
theorem metaCiphers_spec {keys : List P.SymmetricKey} {hops : List Address}
    (hlen : keys.length = hops.length) {hopMeta : Meta} {ciphers : List Bytes} {rng' : R}
    (h : F.metaCiphers keys hops hopMeta rng = .ok (ciphers, rng')) :
    ∃ plans last, Planned F keys hops ciphers plans ∧ plans.getLast? = some last ∧
      last.hopMeta = hopMeta := by
  unfold OnionFormat.metaCiphers at h
  obtain ⟨cs, rng₁, hcs, h⟩ := draw_bind_eq_ok.mp h
  obtain ⟨address, rng₂, haddress, h⟩ := draw_bind_eq_ok.mp h
  obtain ⟨key, rng₃, hkey, h⟩ := draw_bind_eq_ok.mp h
  obtain ⟨cipher, rng₄, hcipher, h⟩ := draw_bind_eq_ok.mp h
  cases draw_pure_eq_ok.mp h
  have haddress' := orPanic_eq_ok.mp (draw_lift_eq_ok.mp haddress).1
  have hkey' := orPanic_eq_ok.mp (draw_lift_eq_ok.mp hkey).1
  cases hops with
  | nil => cases haddress'
  | cons a hops =>
      obtain ⟨key', keys, rfl⟩ := List.exists_cons_of_length_eq_add_one hlen
      obtain ⟨p, plans, hplans, hlast⟩ := metaCiphersHop_spec (by simpa using hlen)
        ⟨address, key, hopMeta, cipher⟩ hkey' haddress' (metaCipher_spec hcipher) hcs
      exact ⟨p :: plans, _, hplans, hlast, rfl⟩

/-- An address with a key gets a ciphertext.  SRC: src/lib.rs:450-453 -/
theorem metaCipher_total (key : P.SymmetricKey) {address : Address} (hopMeta : Meta) (rng : R)
    (h : (F.pki.get address).isSome) : ∃ r, F.metaCipher key address hopMeta rng = .ok r := by
  obtain ⟨pk, hpk⟩ := Option.isSome_iff_exists.mp h
  refine ⟨P.asymmetricEncrypt rng pk ((keyMetaCodec P).encode (key, hopMeta)), ?_⟩
  unfold OnionFormat.metaCipher
  rw [draw_bind_ok (draw_lift_ok (orErr_eq_ok.mpr hpk))]
  rfl

/-- A loop returns when each of its rounds does. -/
theorem mapM_total {α β : Type} {f : α → Draw R β} (l : List α)
    (h : ∀ a ∈ l, ∀ rng, ∃ r, f a rng = .ok r) (rng : R) : ∃ r, (l.mapM f) rng = .ok r := by
  induction l generalizing rng with
  | nil => exact ⟨_, rfl⟩
  | cons a l ih =>
      obtain ⟨⟨b, rng₁⟩, hb⟩ := h a (by simp) rng
      obtain ⟨⟨bs, rng₂⟩, hbs⟩ := ih (fun a' ha' => h a' (by simp [ha'])) rng₁
      rw [List.mapM_cons, draw_bind_ok hb, draw_bind_ok hbs]
      exact ⟨_, rfl⟩

/-- The addresses that the relays' ciphertexts are encrypted to.  SRC: src/lib.rs:449-450 -/
theorem map_relay_address {α β : Type} {keys : List α} {hops : List β}
    (hlen : keys.length = hops.length) :
    ((keys.zip hops).zip (hops.drop 1)).map (fun e => e.1.2) = hops.dropLast := by
  apply List.ext_getElem
  · simp only [List.length_map, List.length_zip, List.length_drop, List.length_dropLast]
    omega
  · intro i h₁ h₂
    simp

/-- Addresses with keys get ciphertexts.  SRC: src/lib.rs:449-454 -/
theorem metaCiphersHop_total {keys : List P.SymmetricKey} {hops : List Address}
    (hlen : keys.length = hops.length) (rng : R)
    (hreg : ∀ a ∈ hops.dropLast, (F.pki.get a).isSome) :
    ∃ r, F.metaCiphersHop keys hops rng = .ok r := by
  unfold OnionFormat.metaCiphersHop
  apply mapM_total
  intro e he rng
  apply metaCipher_total
  apply hreg
  rw [← map_relay_address hlen]
  exact List.mem_map_of_mem he

/-- INTERNAL: behind the ciphertexts of the relays comes that of the last hop.
SRC: src/lib.rs:455-460 -/
theorem metaCiphers_eq {keys : List P.SymmetricKey} {hops : List Address} (hne : hops ≠ [])
    (hlen : keys.length = hops.length) (hopMeta : Meta) {rng rng₁ : R} {cs : List Bytes}
    (hcs : F.metaCiphersHop keys hops rng = .ok (cs, rng₁)) :
    ∃ key, F.metaCiphers keys hops hopMeta rng = (do
      let cipher ← F.metaCipher key (hops.getLast hne) hopMeta
      return cs ++ [cipher] : Draw R (List Bytes)) rng₁ := by
  have hne' : keys ≠ [] := by
    rw [← List.length_pos_iff, hlen]
    exact List.length_pos_iff.mpr hne
  have haddress := orPanic_eq_ok.mpr (List.getLast?_eq_some_getLast hne)
  have hkey := orPanic_eq_ok.mpr (List.getLast?_eq_some_getLast hne')
  refine ⟨keys.getLast hne', ?_⟩
  unfold OnionFormat.metaCiphers
  rw [draw_bind_ok hcs, draw_bind_ok (draw_lift_ok haddress), draw_bind_ok (draw_lift_ok hkey)]

/-- With every hop in the key store, the ciphertexts are computed.  SRC: src/lib.rs:448-460 -/
theorem metaCiphers_total {keys : List P.SymmetricKey} {hops : List Address} (hne : hops ≠ [])
    (hlen : keys.length = hops.length) (hopMeta : Meta) (rng : R)
    (hreg : ∀ a ∈ hops, (F.pki.get a).isSome) :
    ∃ r, F.metaCiphers keys hops hopMeta rng = .ok r := by
  obtain ⟨⟨cs, rng₁⟩, hcs⟩ := metaCiphersHop_total (F := F) hlen rng
    fun a ha => hreg a (List.mem_of_mem_dropLast ha)
  obtain ⟨key, heq⟩ := metaCiphers_eq hne hlen hopMeta hcs
  obtain ⟨⟨c, rng₂⟩, hc⟩ := metaCipher_total (F := F) key hopMeta rng₁
    (hreg (hops.getLast hne) (List.getLast_mem hne))
  rw [heq, draw_bind_ok hc]
  exact ⟨_, rfl⟩

/-! ## Hops that are not in the key store -/

/-- Either all hops have keys, or one of them has none. -/
theorem isSome_iff_not_missing {hops : List Address} :
    (∀ a ∈ hops, (F.pki.get a).isSome) ↔ ¬ ∃ a ∈ hops, F.pki.get a = none := by
  simp only [Option.isSome_iff_ne_none, not_exists, not_and, ne_eq]

/-- An address without a key gets an error.  SRC: src/lib.rs:450 -/
theorem metaCipher_missing (key : P.SymmetricKey) {address : Address} (hopMeta : Meta) (rng : R)
    (h : F.pki.get address = none) :
    F.metaCipher key address hopMeta rng = .error (.err .keyNotFound) := by
  unfold OnionFormat.metaCipher
  apply draw_bind_error
  apply draw_lift_error
  rw [h, orErr_none]

/-- INTERNAL: a sequence of draws whose elements all either return or fail alike fails so when
one of its elements does. -/
theorem mapM_error {α β : Type} {f : α → Draw R β} {e : Fault} (l : List α)
    (h : ∀ a ∈ l, ∀ rng, (∃ r, f a rng = .ok r) ∨ f a rng = .error e)
    (hbad : ∃ a ∈ l, ∀ rng, f a rng = .error e) (rng : R) : (l.mapM f) rng = .error e := by
  induction l generalizing rng with
  | nil =>
      obtain ⟨a, ha, -⟩ := hbad
      cases ha
  | cons a l ih =>
      rw [List.mapM_cons]
      rcases h a (by simp) rng with ⟨⟨b, rng₁⟩, hb⟩ | hb
      · rw [draw_bind_ok hb]
        apply draw_bind_error
        apply ih
        · intro a' ha'
          exact h a' (by simp [ha'])
        · obtain ⟨a', ha', hbad⟩ := hbad
          rcases List.mem_cons.mp ha' with rfl | ha'
          · rw [hbad rng] at hb
            cases hb
          · exact ⟨a', ha', hbad⟩
      · exact draw_bind_error hb

/-- A hop without a key in the key store fails the ciphertexts, wherever it is on the path.
SRC: src/lib.rs:450, 456 -/
theorem metaCiphers_missing {keys : List P.SymmetricKey} {hops : List Address} (hne : hops ≠ [])
    (hlen : keys.length = hops.length) (hopMeta : Meta) (rng : R)
    (hmissing : ∃ a ∈ hops, F.pki.get a = none) :
    F.metaCiphers keys hops hopMeta rng = .error (.err .keyNotFound) := by
  by_cases hrelays : ∃ a ∈ hops.dropLast, F.pki.get a = none
  · obtain ⟨a, ha, hget⟩ := hrelays
    rw [← map_relay_address hlen, List.mem_map] at ha
    obtain ⟨e, he, rfl⟩ := ha
    unfold OnionFormat.metaCiphers OnionFormat.metaCiphersHop
    apply draw_bind_error
    apply mapM_error
    · intro e' _ rng
      cases hget' : F.pki.get e'.1.2 with
      | none => exact Or.inr (metaCipher_missing _ _ rng hget')
      | some pk => exact Or.inl (metaCipher_total _ _ rng (by rw [hget']; rfl))
    · exact ⟨e, he, fun rng => metaCipher_missing _ _ rng hget⟩
  · -- all relays are there, so the last hop is the one that is missing
    have hlast : F.pki.get (hops.getLast hne) = none := by
      obtain ⟨a, ha, hget⟩ := hmissing
      rw [← List.dropLast_append_getLast hne, List.mem_append, List.mem_singleton] at ha
      rcases ha with ha | rfl
      · exact absurd ⟨a, ha, hget⟩ hrelays
      · exact hget
    obtain ⟨⟨cs, rng₁⟩, hcs⟩ :=
      metaCiphersHop_total hlen rng (isSome_iff_not_missing.mpr hrelays)
    obtain ⟨key, heq⟩ := metaCiphers_eq hne hlen hopMeta hcs
    rw [heq]
    exact draw_bind_error (metaCipher_missing _ _ _ hlast)

end Eror.Analysis
