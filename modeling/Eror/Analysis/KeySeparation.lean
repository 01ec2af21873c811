import Eror.Analysis.PathErrors
import Eror.Interface.CrateAssumptions
import Eror.Library.KeyTree
import Eror.Model.CreateOnion

/-!
# No key is used twice

All symmetric keys of a circuit are derived from the master key of its sender: one for each hop of
the two paths, from each of these the keys that the hop encrypts and authenticates with, and from
that of the last forward hop the key for the bytes of the reply.  The last backward hop is the
sender, whose key is the master key itself, so keys of one step and of two are mixed.

What is hashed for a key is the discriminant of its role in front of the key it is derived from.
Discriminants do not overlap (`discriminant_injective`), and the numbers of the hops fit into them
as long as the paths are within the limit.  So two keys of a circuit are the same only if the hash
collides on what is hashed for that very circuit, or leads back to the master key
(`circuitKeys_nodup_iff`).
-/

set_option autoImplicit false

namespace Eror.Analysis

open Library Model

variable {R : Type}

/-! ## What is hashed -/

/-- A discriminant takes five bytes.  SRC: src/primitives.rs:48-72 -/
theorem discriminant_length (role : KeyRole) : role.discriminant.length = 5 := by
  cases role <;> simp [KeyRole.discriminant]

/-- The bytes of a number of 32 bits determine it. -/
theorem toLE_uint32_injective {i j : UInt32} (h : toLE 4 i.toNat = toLE 4 j.toNat) : i = j := by
  have hi : i.toNat < 256 ^ 4 := i.toNat_lt
  have hj : j.toNat < 256 ^ 4 := j.toNat_lt
  have hnat := congrArg ofLE h
  rw [ofLE_toLE, ofLE_toLE, Nat.mod_eq_of_lt hi, Nat.mod_eq_of_lt hj] at hnat
  exact UInt32.toNat_inj.mp hnat

/-- **All discriminants are non-overlapping**, for all numbers of hops.
SRC: src/primitives.rs:48-72 -/
theorem discriminant_injective {role role' : KeyRole}
    (h : role.discriminant = role'.discriminant) : role = role' := by
  cases role <;> cases role' <;> simp [KeyRole.discriminant] at h ⊢ <;>
    exact toLE_uint32_injective h

variable (C : EcCrates R)

/-- What `derive_key` hashes.  SRC: src/primitives.rs:267-269 -/
def deriveInput (role : KeyRole) (key : List.Vector UInt8 16) : Bytes :=
  role.discriminant ++ key.toList

/-- Half of the hash is no longer than the hash. -/
theorem half_le : 16 ≤ 32 := Nat.le_add_right 16 16

/-- The half of the hash that becomes a key.  SRC: src/primitives.rs:270 -/
def hashKey (input : Bytes) : List.Vector UInt8 16 := truncate 16 half_le (C.sha3_256 input)

/-- **What is hashed determines role and key.** -/
theorem deriveInput_injective (role : KeyRole) (key : List.Vector UInt8 16) (role' : KeyRole)
    (key' : List.Vector UInt8 16) (h : deriveInput role key = deriveInput role' key') :
    role = role' ∧ key = key' := by
  have hlen : role.discriminant.length = role'.discriminant.length := by
    rw [discriminant_length, discriminant_length]
  obtain ⟨hrole, hkey⟩ := List.append_inj h hlen
  exact ⟨discriminant_injective hrole, Subtype.ext hkey⟩

/-! ## The keys of a circuit -/

/-- The roles of the keys of the forward hops.  SRC: src/lib.rs:636-638 -/
def forwardRoles (n : ℕ) : List KeyRole := (List.range n).map fun i => .forward (UInt32.ofNat i)

/-- The roles of the keys that are derived from the master key, one for each hop but the last
backward one.  SRC: src/lib.rs:636-643 -/
def hopRoles (n m : ℕ) : List KeyRole :=
  forwardRoles n ++ (List.range (m - 1)).map fun i => .backward (UInt32.ofNat i)

/-- The roles of the keys that are derived from the key of every hop, by the sender and by the node
itself.  SRC: src/lib.rs:438-445, 554-555 -/
def nodeRoles : List KeyRole := [.symEnc, .mac]

section Keys

variable {C} (P : Primitives R) (masterKey : P.SymmetricKey) (n m : ℕ)

/-- The keys of the hops, forward and backward.  SRC: src/lib.rs:636-643 -/
def hopKeys : List P.SymmetricKey :=
  OnionFormat.keysForward P masterKey n ++ OnionFormat.keysBackward P masterKey m

/-- The derivations of a circuit of `n` forward and `m` backward hops: of the keys of the hops from
the master key, of the keys of the nodes from those of the hops, and of the key for the bytes of
the reply, which the sender and the receiver derive from the key of the last forward hop.
SRC: src/lib.rs:438-445, 554-555, 600, 636-645 -/
def derivations : List (KeyRole × P.SymmetricKey) :=
  (hopRoles n m).map (fun role => (role, masterKey)) ++
    (hopKeys P masterKey n m).flatMap (fun key => nodeRoles.map fun role => (role, key)) ++
    ((OnionFormat.keysForward P masterKey n).getLast?.map fun key => (.prng, key)).toList

/-- All keys of a circuit. -/
def circuitKeys : List P.SymmetricKey :=
  masterKey :: (derivations P masterKey n m).map fun d => P.deriveKey d.1 d.2

end Keys

/-! ### As paths of derivations -/

section Paths

variable (n m : ℕ)

/-- The paths from the master key to the keys of the hops. -/
def hopPaths : List (List KeyRole) := (hopRoles n m).map (fun role => [role]) ++ [[]]

/-- The last step, and the path before it. -/
def steps : List (KeyRole × List KeyRole) :=
  (hopRoles n m).map (fun role => (role, [])) ++
    (hopPaths n m).flatMap (fun path => nodeRoles.map fun role => (role, path)) ++
    ((forwardRoles n).getLast?.map fun role => (.prng, [role])).toList

/-- The paths to all keys of a circuit, the empty one to the master key. -/
def circuitPaths : List (List KeyRole) := [] :: (steps n m).map fun d => d.1 :: d.2

variable {n m}

/-- A path that is not empty is a step behind a path. -/
theorem cons_mem_circuitPaths {role : KeyRole} {path : List KeyRole} :
    role :: path ∈ circuitPaths n m ↔ (role, path) ∈ steps n m := by
  rw [circuitPaths, List.mem_cons, List.mem_map]
  constructor
  · rintro (h | ⟨⟨role', path'⟩, hmem, h⟩)
    · cases h
    · cases h
      exact hmem
  · intro h
    exact Or.inr ⟨(role, path), h, rfl⟩

/-- A step leads from the master key to a hop, from a hop to a key of its own, or from the last
forward hop to the key of its generator. -/
theorem mem_steps {role : KeyRole} {path : List KeyRole} :
    (role, path) ∈ steps n m ↔
      (role ∈ hopRoles n m ∧ path = []) ∨ (role ∈ nodeRoles ∧ path ∈ hopPaths n m) ∨
        role = .prng ∧ ∃ last, (forwardRoles n).getLast? = some last ∧ path = [last] := by
  simp only [steps, List.mem_append, List.mem_map, List.mem_flatMap, Option.mem_toList,
    Option.map_eq_some_iff, Prod.mk.injEq]
  constructor
  · rintro ((⟨role', hrole, rfl, rfl⟩ | ⟨path', hpath, role', hrole, rfl, rfl⟩) |
      ⟨last, hlast, rfl, rfl⟩)
    · exact Or.inl ⟨hrole, rfl⟩
    · exact Or.inr (Or.inl ⟨hrole, hpath⟩)
    · exact Or.inr (Or.inr ⟨rfl, last, hlast, rfl⟩)
  · rintro (⟨hrole, rfl⟩ | ⟨hrole, hpath⟩ | ⟨rfl, last, hlast, rfl⟩)
    · exact Or.inl (Or.inl ⟨role, hrole, rfl, rfl⟩)
    · exact Or.inl (Or.inr ⟨path, hpath, role, hrole, rfl, rfl⟩)
    · exact Or.inr ⟨last, hlast, rfl, rfl⟩

/-- The key of a hop is derived from the master key. -/
theorem singleton_mem_circuitPaths {role : KeyRole} (h : role ∈ hopRoles n m) :
    [role] ∈ circuitPaths n m := cons_mem_circuitPaths.mpr (mem_steps.mpr (Or.inl ⟨h, rfl⟩))

/-- The last forward hop is a hop. -/
theorem mem_hopRoles_of_getLast? {role : KeyRole} (h : (forwardRoles n).getLast? = some role) :
    role ∈ hopRoles n m := List.mem_append_left _ (List.mem_of_getLast? h)

/-- The paths of a circuit are derived from the master key on. -/
theorem circuitPaths_rooted : Rooted {path | path ∈ circuitPaths n m} := by
  refine ⟨List.mem_cons_self, ?_⟩
  intro role path hmem
  rw [Set.mem_ofPred_eq, cons_mem_circuitPaths, mem_steps] at hmem
  rcases hmem with ⟨-, rfl⟩ | ⟨-, hpath⟩ | ⟨-, last, hlast, rfl⟩
  · exact List.mem_cons_self
  · rcases List.mem_append.mp hpath with hpath | hpath
    · obtain ⟨role', hrole', rfl⟩ := List.mem_map.mp hpath
      exact singleton_mem_circuitPaths hrole'
    · rw [List.mem_singleton.mp hpath]
      exact List.mem_cons_self
  · exact singleton_mem_circuitPaths (mem_hopRoles_of_getLast? hlast)

variable [Rng R] (masterKey : C.ecPrimitives.SymmetricKey)

/-- `derive_key` over several steps. -/
def pathKey : List KeyRole → C.ecPrimitives.SymmetricKey :=
  derivedKey deriveInput (hashKey C) masterKey

/-- The keys of the forward hops are at the ends of their paths. -/
theorem keysForward_eq : OnionFormat.keysForward C.ecPrimitives masterKey n =
    (forwardRoles n).map fun role => pathKey C masterKey [role] := by
  rw [forwardRoles, List.map_map]
  rfl

/-- So are the keys of all hops. -/
theorem hopKeys_eq : hopKeys C.ecPrimitives masterKey n m =
    (hopPaths n m).map (pathKey C masterKey) := by
  simp only [hopKeys, hopPaths, hopRoles, forwardRoles, OnionFormat.keysForward,
    OnionFormat.keysBackward, List.map_append, List.map_map, List.append_assoc]
  rfl

/-- The derivations of a circuit are its steps. -/
theorem derivations_eq : derivations C.ecPrimitives masterKey n m =
    (steps n m).map fun d => (d.1, pathKey C masterKey d.2) := by
  simp only [derivations, steps, hopKeys_eq, keysForward_eq, List.map_append, List.map_map,
    List.flatMap_map, List.map_flatMap, List.getLast?_map, Option.map_map, ← Option.toList_map]
  rfl

/-- The keys of a circuit are at the ends of its paths. -/
theorem circuitKeys_eq : circuitKeys C.ecPrimitives masterKey n m =
    (circuitPaths n m).map (pathKey C masterKey) := by
  rw [circuitKeys, circuitPaths, derivations_eq, List.map_cons, List.map_map, List.map_map]
  rfl

/-- What is hashed along the paths is what is hashed in the derivations. -/
theorem hashedInputs_circuitPaths :
    hashedInputs deriveInput (hashKey C) masterKey {path | path ∈ circuitPaths n m} =
      {x | x ∈ (derivations C.ecPrimitives masterKey n m).map fun d => deriveInput d.1 d.2} := by
  ext x
  simp only [hashedInputs, Set.mem_ofPred_eq, cons_mem_circuitPaths, derivations_eq, List.map_map,
    List.mem_map, Prod.exists]
  constructor
  · rintro ⟨role, path, hmem, rfl⟩
    exact ⟨role, path, hmem, rfl⟩
  · rintro ⟨role, path, hmem, rfl⟩
    exact ⟨role, path, hmem, rfl⟩

end Paths

/-! ### No two paths are the same -/

section Nodup

variable {n m : ℕ}

/-- Numbers of 32 bits are different as long as they do not wrap. -/
theorem nodup_map_ofNat {f : UInt32 → KeyRole} (hf : ∀ i j, f i = f j → i = j)
    (hn : n ≤ 2 ^ 32) : ((List.range n).map fun i => f (UInt32.ofNat i)).Nodup := by
  apply List.Nodup.map_on _ List.nodup_range
  intro i hi j hj h
  have hnat := congrArg UInt32.toNat (hf _ _ h)
  rw [List.mem_range] at hi hj
  rwa [UInt32.toNat_ofNat_of_lt' (hi.trans_le hn), UInt32.toNat_ofNat_of_lt' (hj.trans_le hn)]
    at hnat

/-- The numbers of the hops do not wrap.  SRC: src/lib.rs:637, 641 -/
theorem hopRoles_nodup (hn : n ≤ 2 ^ 32) (hm : m ≤ 2 ^ 32) : (hopRoles n m).Nodup := by
  rw [hopRoles, List.nodup_append']
  refine ⟨nodup_map_ofNat (f := .forward) (fun i j => KeyRole.forward.inj) hn,
    nodup_map_ofNat (f := .backward) (fun i j => KeyRole.backward.inj) ((Nat.sub_le m 1).trans hm),
    ?_⟩
  intro role hforward hbackward
  obtain ⟨i, -, rfl⟩ := List.mem_map.mp hforward
  obtain ⟨j, -, h⟩ := List.mem_map.mp hbackward
  cases h

/-- The roles of hops are numbered ones. -/
theorem mem_hopRoles {role : KeyRole} (h : role ∈ hopRoles n m) :
    (∃ i, role = .forward i) ∨ ∃ i, role = .backward i := by
  rcases List.mem_append.mp h with h | h
  · obtain ⟨i, -, rfl⟩ := List.mem_map.mp h
    exact Or.inl ⟨_, rfl⟩
  · obtain ⟨i, -, rfl⟩ := List.mem_map.mp h
    exact Or.inr ⟨_, rfl⟩

/-- The role of the generator is no role of a hop. -/
theorem prng_not_mem_hopRoles : KeyRole.prng ∉ hopRoles n m := by
  intro h
  rcases mem_hopRoles h with ⟨i, h⟩ | ⟨i, h⟩ <;> cases h

/-- The role of a hop is none of the roles within a hop. -/
theorem not_mem_nodeRoles {role : KeyRole} (h : role ∈ hopRoles n m) : role ∉ nodeRoles := by
  rcases mem_hopRoles h with ⟨i, rfl⟩ | ⟨i, rfl⟩ <;> simp [nodeRoles]

/-- The paths to the hops are different. -/
theorem hopPaths_nodup (hn : n ≤ 2 ^ 32) (hm : m ≤ 2 ^ 32) : (hopPaths n m).Nodup := by
  rw [hopPaths, List.nodup_append']
  refine ⟨(hopRoles_nodup hn hm).map fun a b h => List.head_eq_of_cons_eq h,
    List.nodup_singleton [], ?_⟩
  rw [List.disjoint_singleton]
  intro h
  obtain ⟨role, -, h⟩ := List.mem_map.mp h
  cases h

/-- No derivation is made twice. -/
theorem steps_nodup (hn : n ≤ 2 ^ 32) (hm : m ≤ 2 ^ 32) : (steps n m).Nodup := by
  rw [steps, List.nodup_append', List.nodup_append']
  refine ⟨⟨(hopRoles_nodup hn hm).map (Prod.mk_left_injective []), ?_, ?_⟩, ?_, ?_⟩
  · rw [List.nodup_flatMap]
    refine ⟨fun path _ => List.Nodup.map (Prod.mk_left_injective path) (by decide), ?_⟩
    apply (hopPaths_nodup hn hm).imp
    intro path path' hne d hd hd'
    obtain ⟨role, -, rfl⟩ := List.mem_map.mp hd
    obtain ⟨role', -, h⟩ := List.mem_map.mp hd'
    exact hne (Prod.mk.inj h).2.symm
  · intro d hd hd'
    obtain ⟨role, hrole, rfl⟩ := List.mem_map.mp hd
    obtain ⟨path, -, hd'⟩ := List.mem_flatMap.mp hd'
    obtain ⟨role', hrole', h⟩ := List.mem_map.mp hd'
    rw [(Prod.mk.inj h).1] at hrole'
    exact not_mem_nodeRoles hrole hrole'
  · cases ((forwardRoles n).getLast?.map fun role => (KeyRole.prng, [role])) with
    | none => exact List.nodup_nil
    | some d => exact List.nodup_singleton d
  · intro d hd hd'
    obtain ⟨last, -, rfl⟩ := Option.map_eq_some_iff.mp (Option.mem_toList.mp hd')
    rcases List.mem_append.mp hd with hd | hd
    · obtain ⟨role, hrole, h⟩ := List.mem_map.mp hd
      rw [(Prod.mk.inj h).1] at hrole
      exact prng_not_mem_hopRoles hrole
    · obtain ⟨path, -, hd⟩ := List.mem_flatMap.mp hd
      obtain ⟨role, hrole, h⟩ := List.mem_map.mp hd
      rw [(Prod.mk.inj h).1] at hrole
      simp [nodeRoles] at hrole

/-- **All paths of a circuit are different.** -/
theorem circuitPaths_nodup (hn : n ≤ 2 ^ 32) (hm : m ≤ 2 ^ 32) : (circuitPaths n m).Nodup := by
  rw [circuitPaths, List.nodup_cons, List.mem_map]
  constructor
  · rintro ⟨d, -, h⟩
    cases h
  · apply (steps_nodup hn hm).map
    intro d d' h
    exact Prod.ext (List.head_eq_of_cons_eq h) (List.tail_eq_of_cons_eq h)

end Nodup

/-! ## The result -/

/-- **No key is used twice**, unless the hash fails on the circuit itself.  The keys of a circuit on
two paths that `form_onion` takes, among them the master key, are pairwise different if and only if
no two different byte strings that are hashed for them have the same hash, and none hashes to the
master key.  SRC: src/lib.rs:630-648, src/primitives.rs:47-72, 260-272 -/
theorem circuitKeys_nodup_iff [Rng R] (F : OnionFormat C.ecPrimitives) (fwd bwd : List Address)
    (h : ¬ TooLong F fwd bwd) (masterKey : C.ecPrimitives.SymmetricKey) :
    (circuitKeys C.ecPrimitives masterKey fwd.length bwd.length).Nodup ↔
      Set.InjOn (hashKey C) {x | x ∈ (derivations C.ecPrimitives masterKey fwd.length
        bwd.length).map fun d => deriveInput d.1 d.2} ∧
      ∀ d ∈ derivations C.ecPrimitives masterKey fwd.length bwd.length,
        C.deriveKey d.1 d.2 ≠ masterKey := by
  obtain ⟨hfwd, hbwd⟩ := not_or.mp h
  have hlimit : F.pathLimit < 2 ^ 32 := F.maxPathLength.toNat_lt
  have hnodup := circuitPaths_nodup (n := fwd.length) (m := bwd.length) (by omega) (by omega)
  rw [circuitKeys_eq, List.nodup_map_iff_inj_on hnodup, ← hashedInputs_circuitPaths,
    derivations_eq]
  refine Iff.trans ?_ ((derivedKey_injOn_iff deriveInput_injective circuitPaths_rooted).trans
    (and_congr_right' ?_))
  · exact ⟨fun h path hp path' hp' heq => h path hp path' hp' heq,
      fun h path hp path' hp' heq => h hp hp' heq⟩
  · constructor
    · intro h d hd
      obtain ⟨⟨role, path⟩, hstep, rfl⟩ := List.mem_map.mp hd
      exact h (role :: path) (cons_mem_circuitPaths.mpr hstep) (List.cons_ne_nil role path)
    · intro h path hmem hne
      cases path with
      | nil => exact absurd rfl hne
      | cons role path =>
          exact h _ (List.mem_map_of_mem (cons_mem_circuitPaths.mp hmem))

/-- The keys of the sample can be compared. -/
instance : DecidableEq sampleCrates.ecPrimitives.SymmetricKey :=
  inferInstanceAs (DecidableEq (List.Vector UInt8 16))

/-- The ten keys of a circuit of two forward hops and one backward hop are different, so the hash
fails nowhere. -/
theorem circuitKeys_nodup_iff_sample :
    Set.InjOn (hashKey sampleCrates) {x | x ∈ (derivations sampleCrates.ecPrimitives
        (.replicate 16 0) 2 1).map fun d => deriveInput d.1 d.2} ∧
      ∀ d ∈ derivations sampleCrates.ecPrimitives (.replicate 16 0) 2 1,
        sampleCrates.deriveKey d.1 d.2 ≠ .replicate 16 0 := by
  have hnodup : (circuitKeys sampleCrates.ecPrimitives (.replicate 16 0) 2 1).Nodup := by
    decide
  exact (circuitKeys_nodup_iff sampleCrates ⟨3, Pki.new _⟩ [sampleAddress 7, sampleAddress 8]
    [sampleAddress 9] (by decide) (.replicate 16 0)).mp hnodup

end Eror.Analysis
