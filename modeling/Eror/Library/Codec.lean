import Mathlib.Tactic
import Mathlib.Data.Vector.Basic

/-!
# Self-delimiting binary formats

A `Codec α` writes a value to a byte string and reads one off the front of a byte
string, returning what is left.  Its three laws say that a value that fits the format
is read back whatever follows it (`decode_encode`), and that reading is canonical: the
bytes consumed are exactly the bytes the value would be written as
(`encode_of_decode`), so a format accepts one spelling of each value only.

`Fits` is what the format can express.  A length prefix of eight bytes cannot count
past `2 ^ 64`, so `Codec.list` is faithful below that bound and says so, rather than
hiding it in a definition.

The combinators are the fixed-width little-endian encoding of binary serializers:
integers (`Codec.nat`), fixed arrays (`Codec.array`), pairs (`Codec.pair`),
length-prefixed sequences (`Codec.list`) and types that embed in another one
(`Codec.map`).
-/

set_option autoImplicit false

namespace Library

/-- Byte strings. -/
abbrev Bytes := List UInt8

/-! ## Little-endian integers -/

/-- The `w` low bytes of `n`, least significant first. -/
def toLE : ℕ → ℕ → Bytes
  | 0, _ => []
  | w + 1, n => UInt8.ofNat (n % 256) :: toLE w (n / 256)

/-- The number a little-endian byte string stands for. -/
def ofLE : Bytes → ℕ
  | [] => 0
  | b :: bs => b.toNat + 256 * ofLE bs

/-- A number is written in the bytes that it is given. -/
@[simp] theorem toLE_length (w n : ℕ) : (toLE w n).length = w := by
  induction w generalizing n with
  | zero => rfl
  | succ w ih => simp [toLE, ih]

/-- A number is read back up to the range of its bytes. -/
theorem ofLE_toLE (w n : ℕ) : ofLE (toLE w n) = n % 256 ^ w := by
  induction w generalizing n with
  | zero => simp [toLE, ofLE, Nat.mod_one]
  | succ w ih =>
      have hb : (UInt8.ofNat (n % 256)).toNat = n % 256 := by simp
      rw [toLE, ofLE, ih, hb, pow_succ', Nat.mod_mul]

/-- Every spelling of a number is the one that is written. -/
theorem toLE_ofLE (bs : Bytes) : toLE bs.length (ofLE bs) = bs := by
  induction bs with
  | nil => rfl
  | cons b bs ih =>
      have hb : b.toNat < 256 := b.toNat_lt
      have hmod : (b.toNat + 256 * ofLE bs) % 256 = b.toNat := by omega
      have hdiv : (b.toNat + 256 * ofLE bs) / 256 = ofLE bs := by omega
      rw [List.length_cons, toLE, ofLE, hmod, hdiv, ih]
      simp

/-- What is read is in the range of the bytes. -/
theorem ofLE_lt (bs : Bytes) : ofLE bs < 256 ^ bs.length := by
  induction bs with
  | nil => simp [ofLE]
  | cons b bs ih =>
      have hb : b.toNat < 256 := b.toNat_lt
      rw [List.length_cons, ofLE, pow_succ']
      omega

/-! ## Codecs -/

/-- A self-delimiting binary format for `α`. -/
structure Codec (α : Type) where
  /-- Write a value. -/
  encode : α → Bytes
  /-- Read a value off the front and return the rest. -/
  decode : Bytes → Option (α × Bytes)
  /-- The values the format can express. -/
  Fits : α → Prop
  decode_encode : ∀ a rest, Fits a → decode (encode a ++ rest) = some (a, rest)
  fits_of_decode : ∀ bs a rest, decode bs = some (a, rest) → Fits a
  encode_of_decode : ∀ bs a rest, decode bs = some (a, rest) → encode a ++ rest = bs

namespace Codec

variable {α β : Type}

/-- Read a value off the front and ignore what follows it. -/
def deserialize (c : Codec α) (bs : Bytes) : Option α := (c.decode bs).map Prod.fst

/-- A value is read back whatever follows it. -/
theorem deserialize_encode_append (c : Codec α) (a : α) (rest : Bytes) (h : c.Fits a) :
    c.deserialize (c.encode a ++ rest) = some a := by
  rw [deserialize, c.decode_encode a rest h]
  rfl

/-- A value is read back. -/
theorem deserialize_encode (c : Codec α) (a : α) (h : c.Fits a) :
    c.deserialize (c.encode a) = some a := by
  have := c.deserialize_encode_append a [] h
  rwa [List.append_nil] at this

/-- What is read fits, and its bytes are in front of the input. -/
theorem deserialize_eq_some (c : Codec α) {bs : Bytes} {a : α}
    (h : c.deserialize bs = some a) : c.Fits a ∧ ∃ rest, c.encode a ++ rest = bs := by
  obtain ⟨⟨a', rest⟩, hd, rfl⟩ := Option.map_eq_some_iff.mp h
  exact ⟨c.fits_of_decode _ _ _ hd, rest, c.encode_of_decode _ _ _ hd⟩

/-- What is read off the front does not depend on what follows it. -/
theorem deserialize_append (c : Codec α) {bs : Bytes} {a : α} (h : c.deserialize bs = some a)
    (more : Bytes) : c.deserialize (bs ++ more) = some a := by
  obtain ⟨hfits, rest, rfl⟩ := c.deserialize_eq_some h
  rw [List.append_assoc]
  exact c.deserialize_encode_append a (rest ++ more) hfits

/-- Encodings of values that fit are uniquely readable: neither value nor rest can
differ when the bytes agree. -/
theorem encode_append_inj (c : Codec α) {a b : α} {r s : Bytes} (ha : c.Fits a) (hb : c.Fits b)
    (h : c.encode a ++ r = c.encode b ++ s) : a = b ∧ r = s := by
  have hd := c.decode_encode a r ha
  rw [h, c.decode_encode b s hb] at hd
  simp only [Option.some.injEq, Prod.mk.injEq] at hd
  exact ⟨hd.1.symm, hd.2.symm⟩

/-- Values that fit and have the same bytes are the same. -/
theorem encode_inj (c : Codec α) {a b : α} (ha : c.Fits a) (hb : c.Fits b)
    (h : c.encode a = c.encode b) : a = b :=
  (c.encode_append_inj (r := []) (s := []) ha hb (by rw [h])).1

/-! ### Combinators -/

/-- A byte stands for itself. -/
def u8 : Codec UInt8 where
  encode b := [b]
  decode
    | [] => none
    | b :: bs => some (b, bs)
  Fits _ := True
  decode_encode _ _ _ := rfl
  fits_of_decode _ _ _ _ := trivial
  encode_of_decode := by
    intro bs a rest h
    cases bs with
    | nil => simp at h
    | cons b bs => simpa using Eq.symm h

/-- A little-endian integer of `w` bytes. -/
def nat (w : ℕ) : Codec ℕ where
  encode n := toLE w n
  decode bs := if w ≤ bs.length then some (ofLE (bs.take w), bs.drop w) else none
  Fits n := n < 256 ^ w
  decode_encode := by
    intro n rest h
    have hlen : w ≤ (toLE w n ++ rest).length := by simp
    rw [if_pos hlen, List.take_left' (toLE_length w n), List.drop_left' (toLE_length w n),
      ofLE_toLE, Nat.mod_eq_of_lt h]
  fits_of_decode := by
    intro bs a rest h
    split at h
    · rename_i hw
      simp only [Option.some.injEq, Prod.mk.injEq] at h
      have hlt := ofLE_lt (bs.take w)
      rw [List.length_take_of_le hw] at hlt
      rwa [← h.1]
    · simp at h
  encode_of_decode := by
    intro bs a rest h
    split at h
    · rename_i hw
      simp only [Option.some.injEq, Prod.mk.injEq] at h
      have hle := toLE_ofLE (bs.take w)
      rw [List.length_take_of_le hw] at hle
      rw [← h.1, ← h.2, hle, List.take_append_drop]
    · simp at h

/-- A fixed array of `n` bytes, written without a length. -/
def array (n : ℕ) : Codec (List.Vector UInt8 n) where
  encode v := v.toList
  decode bs :=
    if h : n ≤ bs.length then some (⟨bs.take n, List.length_take_of_le h⟩, bs.drop n) else none
  Fits _ := True
  decode_encode := by
    intro v rest _
    have hlen : n ≤ (v.toList ++ rest).length := by simp
    rw [dif_pos hlen]
    refine congrArg some (Prod.ext (Subtype.ext ?_) (List.drop_left' v.toList_length))
    exact List.take_left' v.toList_length
  fits_of_decode _ _ _ _ := trivial
  encode_of_decode := by
    intro bs v rest h
    split at h
    · obtain ⟨rfl, rfl⟩ := Prod.mk.inj (Option.some.inj h)
      exact List.take_append_drop n bs
    · simp at h

/-- One value after the other. -/
def pair (c : Codec α) (d : Codec β) : Codec (α × β) where
  encode p := c.encode p.1 ++ d.encode p.2
  decode bs := do
    let (a, bs) ← c.decode bs
    let (b, bs) ← d.decode bs
    return ((a, b), bs)
  Fits p := c.Fits p.1 ∧ d.Fits p.2
  decode_encode := by
    intro p rest h
    rw [List.append_assoc, c.decode_encode _ _ h.1]
    simp [d.decode_encode _ _ h.2]
  fits_of_decode := by
    intro bs p rest h
    simp only [Option.bind_eq_bind, Option.bind_eq_some_iff, Option.pure_def,
      Option.some.injEq, Prod.mk.injEq, Prod.exists] at h
    obtain ⟨a, bs', hc, b, bs'', hd, rfl, -⟩ := h
    exact ⟨c.fits_of_decode _ _ _ hc, d.fits_of_decode _ _ _ hd⟩
  encode_of_decode := by
    intro bs p rest h
    simp only [Option.bind_eq_bind, Option.bind_eq_some_iff, Option.pure_def,
      Option.some.injEq, Prod.mk.injEq, Prod.exists] at h
    obtain ⟨a, bs', hc, b, bs'', hd, rfl, rfl⟩ := h
    rw [List.append_assoc, d.encode_of_decode _ _ _ hd, c.encode_of_decode _ _ _ hc]

/-- Read `n` values off the front. -/
def decodeMany (c : Codec α) : ℕ → Bytes → Option (List α × Bytes)
  | 0, bs => some ([], bs)
  | n + 1, bs => do
    let (a, bs) ← c.decode bs
    let (as, bs) ← decodeMany c n bs
    return (a :: as, bs)

/-- As many values are read back as were written one behind the other. -/
theorem decodeMany_encode (c : Codec α) (l : List α) (rest : Bytes) (h : ∀ a ∈ l, c.Fits a) :
    c.decodeMany l.length (l.flatMap c.encode ++ rest) = some (l, rest) := by
  induction l with
  | nil => rfl
  | cons a l ih =>
      have ha : c.Fits a := h a (by simp)
      have hl : ∀ a ∈ l, c.Fits a := fun b hb => h b (by simp [hb])
      rw [List.flatMap_cons, List.append_assoc, List.length_cons, decodeMany,
        c.decode_encode _ _ ha]
      simp [ih hl]

/-- INTERNAL: what `decodeMany` returns was written at the front, and every value fits. -/
theorem decodeMany_eq_some (c : Codec α) {n : ℕ} {bs rest : Bytes} {l : List α}
    (h : c.decodeMany n bs = some (l, rest)) :
    l.length = n ∧ (∀ a ∈ l, c.Fits a) ∧ l.flatMap c.encode ++ rest = bs := by
  induction n generalizing bs l with
  | zero =>
      simp only [decodeMany, Option.some.injEq, Prod.mk.injEq] at h
      obtain ⟨rfl, rfl⟩ := h
      simp
  | succ n ih =>
      simp only [decodeMany, Option.bind_eq_bind, Option.bind_eq_some_iff, Option.pure_def,
        Option.some.injEq, Prod.mk.injEq, Prod.exists] at h
      obtain ⟨a, bs', hc, as, bs'', hd, rfl, rfl⟩ := h
      obtain ⟨hlen, hfits, henc⟩ := ih hd
      refine ⟨by simp [hlen], ?_, ?_⟩
      · intro b hb
        rcases List.mem_cons.mp hb with rfl | hb
        · exact c.fits_of_decode _ _ _ hc
        · exact hfits b hb
      · rw [List.flatMap_cons, List.append_assoc, henc, c.encode_of_decode _ _ _ hc]

/-- A sequence behind its length, an integer of eight bytes. -/
def list (c : Codec α) : Codec (List α) where
  encode l := toLE 8 l.length ++ l.flatMap c.encode
  decode bs := do
    let (n, bs) ← (nat 8).decode bs
    c.decodeMany n bs
  Fits l := l.length < 2 ^ 64 ∧ ∀ a ∈ l, c.Fits a
  decode_encode := by
    intro l rest h
    have hn : (nat 8).Fits l.length := by
      have := h.1
      simp only [nat]
      omega
    have hd := (nat 8).decode_encode l.length (l.flatMap c.encode ++ rest) hn
    rw [List.append_assoc]
    change ((nat 8).decode ((nat 8).encode l.length ++ _)).bind _ = _
    rw [hd]
    exact c.decodeMany_encode l rest h.2
  fits_of_decode := by
    intro bs l rest h
    simp only [Option.bind_eq_bind, Option.bind_eq_some_iff, Prod.exists] at h
    obtain ⟨n, bs', hn, hl⟩ := h
    obtain ⟨hlen, hfits, -⟩ := c.decodeMany_eq_some hl
    have hlt := (nat 8).fits_of_decode _ _ _ hn
    simp only [nat] at hlt
    exact ⟨by omega, hfits⟩
  encode_of_decode := by
    intro bs l rest h
    simp only [Option.bind_eq_bind, Option.bind_eq_some_iff, Prod.exists] at h
    obtain ⟨n, bs', hn, hl⟩ := h
    obtain ⟨hlen, -, henc⟩ := c.decodeMany_eq_some hl
    have hpre := (nat 8).encode_of_decode _ _ _ hn
    simp only [nat] at hpre
    rw [List.append_assoc, henc, hlen, hpre]

/-- A type that embeds in another one: written as its image, and an image only is read. -/
def map (c : Codec β) (put : α → β) (get : β → Option α)
    (get_put : ∀ a, c.Fits (put a) → get (put a) = some a)
    (put_get : ∀ b a, get b = some a → put a = b) : Codec α where
  encode a := c.encode (put a)
  decode bs := do
    let (b, bs) ← c.decode bs
    let a ← get b
    return (a, bs)
  Fits a := c.Fits (put a)
  decode_encode := by
    intro a rest h
    simp [c.decode_encode _ rest h, get_put a h]
  fits_of_decode := by
    intro bs a rest h
    simp only [Option.bind_eq_bind, Option.bind_eq_some_iff, Option.pure_def,
      Option.some.injEq, Prod.mk.injEq, Prod.exists] at h
    obtain ⟨b, bs', hc, a', hg, rfl, -⟩ := h
    rw [put_get b a' hg]
    exact c.fits_of_decode _ _ _ hc
  encode_of_decode := by
    intro bs a rest h
    simp only [Option.bind_eq_bind, Option.bind_eq_some_iff, Option.pure_def,
      Option.some.injEq, Prod.mk.injEq, Prod.exists] at h
    obtain ⟨b, bs', hc, a', hg, rfl, rfl⟩ := h
    rw [put_get b a' hg]
    exact c.encode_of_decode _ _ _ hc

/-- A byte string behind its length. -/
def bytes : Codec Bytes := list u8

/-! ### Encoded bytes and lengths -/

/-- A number is its bytes, the lowest first. -/
@[simp] theorem nat_encode (w n : ℕ) : (nat w).encode n = toLE w n := rfl

/-- An array is its bytes. -/
@[simp] theorem array_encode {n : ℕ} (v : List.Vector UInt8 n) :
    (array n).encode v = v.toList := rfl

/-- A pair is its first part with its second part behind it. -/
@[simp] theorem pair_encode (c : Codec α) (d : Codec β) (p : α × β) :
    (c.pair d).encode p = c.encode p.1 ++ d.encode p.2 := rfl

/-- A pair fits when both parts do. -/
@[simp] theorem pair_fits (c : Codec α) (d : Codec β) (p : α × β) :
    (c.pair d).Fits p ↔ c.Fits p.1 ∧ d.Fits p.2 := Iff.rfl

/-- A list is its length with its elements behind it. -/
@[simp] theorem list_encode (c : Codec α) (l : List α) :
    c.list.encode l = toLE 8 l.length ++ l.flatMap c.encode := rfl

/-- A list fits when its length and its elements do. -/
@[simp] theorem list_fits (c : Codec α) (l : List α) :
    c.list.Fits l ↔ l.length < 2 ^ 64 ∧ ∀ a ∈ l, c.Fits a := Iff.rfl

/-- Bytes are their length with themselves behind it. -/
@[simp] theorem bytes_encode (bs : Bytes) : bytes.encode bs = toLE 8 bs.length ++ bs := by
  have h : bs.flatMap u8.encode = bs := by
    induction bs with
    | nil => rfl
    | cons b bs ih => rw [List.flatMap_cons, ih]; rfl
  rw [bytes, list_encode, h]

/-- Bytes fit when their length does. -/
@[simp] theorem bytes_fits (bs : Bytes) : bytes.Fits bs ↔ bs.length < 2 ^ 64 := by
  rw [bytes, list_fits]
  exact and_iff_left fun _ _ => trivial

/-- INTERNAL: a list of byte strings takes eight bytes for its length and eight for that
of each element, beside the bytes themselves. -/
theorem list_bytes_length (l : List Bytes) :
    (bytes.list.encode l).length = 8 + (l.map fun bs => 8 + bs.length).sum := by
  rw [list_encode, List.length_append, toLE_length, List.length_flatMap]
  congr 2
  apply List.map_congr_left
  intro bs _
  rw [bytes_encode, List.length_append, toLE_length]

/-! ### Formats of a fixed width -/

/-- Every value takes `w` bytes, and every `w` bytes are a value. -/
structure FixedWidth (c : Codec α) (w : ℕ) : Prop where
  fits : ∀ a, c.Fits a
  length : ∀ a, (c.encode a).length = w
  total : ∀ bs : Bytes, bs.length = w → ∃ a, c.decode bs = some (a, [])

/-- An array of `n` bytes takes `n` bytes. -/
theorem array_fixedWidth (n : ℕ) : (array n).FixedWidth n where
  fits _ := trivial
  length v := v.toList_length
  total bs h := ⟨⟨bs, h⟩, by
    simp only [array]
    rw [dif_pos h.ge]
    exact congrArg some (Prod.ext (Subtype.ext (List.take_of_length_le h.le))
      (List.drop_of_length_le h.le))⟩

/-- A buffer of the width of the format is the encoding of the value it is read as. -/
theorem FixedWidth.exists_encode {c : Codec α} {w : ℕ} (h : c.FixedWidth w) (bs : Bytes)
    (hbs : bs.length = w) : ∃ a, c.deserialize bs = some a ∧ c.encode a = bs := by
  obtain ⟨a, ha⟩ := h.total bs hbs
  refine ⟨a, by rw [deserialize, ha]; rfl, ?_⟩
  have := c.encode_of_decode _ _ _ ha
  rwa [List.append_nil] at this

end Codec

end Library
