import Mathlib.Data.Set.Function

/-!
# Keys derived from one root

A key is derived from another one by hashing it together with a label, over several steps from one
root.  When labels and keys can be read off what is hashed, two paths of derivations meet in one
key only if the hash collides on something that was hashed on the way, or leads back to the root
(`derivedKey_injOn_iff`).
-/

set_option autoImplicit false

namespace Library

variable {Label Key Input : Type} (input : Label → Key → Input) (hash : Input → Key) (root : Key)

/-- The key at the end of a path from the root.  The label of the last step comes first. -/
def derivedKey : List Label → Key
  | [] => root
  | label :: path => hash (input label (derivedKey path))

/-- What is hashed in the last steps of some paths. -/
def hashedInputs (paths : Set (List Label)) : Set Input :=
  {x | ∃ label path, label :: path ∈ paths ∧ x = input label (derivedKey input hash root path)}

/-- Each path is derived over paths of the set, from the root on. -/
structure Rooted (paths : Set (List Label)) : Prop where
  nil : [] ∈ paths
  tail : ∀ label path, label :: path ∈ paths → path ∈ paths

variable {input hash root}

/-- **Separation of keys.**  The keys of a rooted set of paths differ if and only if the hash does
not collide on what is hashed for them, and does not lead back to the root. -/
theorem derivedKey_injOn_iff
    (hinput : ∀ label key label' key', input label key = input label' key' →
      label = label' ∧ key = key') {paths : Set (List Label)} (hpaths : Rooted paths) :
    Set.InjOn (derivedKey input hash root) paths ↔
      Set.InjOn hash (hashedInputs input hash root paths) ∧
        ∀ path ∈ paths, path ≠ [] → derivedKey input hash root path ≠ root := by
  constructor
  · intro h
    constructor
    · rintro x ⟨label, path, hmem, rfl⟩ y ⟨label', path', hmem', rfl⟩ heq
      cases h hmem hmem' heq
      rfl
    · intro path hmem hne heq
      exact hne (h hmem hpaths.nil heq)
  · rintro ⟨hhash, hroot⟩ path
    induction path with
    | nil =>
        intro hmem path' hmem' heq
        by_contra hne
        exact hroot path' hmem' (Ne.symm hne) heq.symm
    | cons label path ih =>
        intro hmem path' hmem' heq
        cases path' with
        | nil => exact absurd heq (hroot _ hmem (List.cons_ne_nil label path))
        | cons label' path' =>
            have hsame := hhash ⟨label, path, hmem, rfl⟩ ⟨label', path', hmem', rfl⟩ heq
            obtain ⟨hlabel, hkey⟩ := hinput _ _ _ _ hsame
            rw [hlabel, ih (hpaths.tail _ _ hmem) (hpaths.tail _ _ hmem') hkey]

end Library
