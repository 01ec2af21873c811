import Eror.Model.Program

/-!
# Shapes of onions

Three ways of looking at an onion that the results are stated in.  `asRaw` forgets which
blocks are parsed, and two onions are `==` exactly when they agree then
(`Onion.beq_iff_asRaw_eq`).  `Addressable` says that the parts of an onion are vectors, which a
64-bit length can count.  `WellFormed` is the shape that the format gives its onions: as many
blocks as the path limit, each of `single_header_length` bytes.
-/

set_option autoImplicit false

namespace Eror.Model

open Library

variable {R : Type} {P : Primitives R}

/-! ## Raw forms -/

namespace Header

/-- The block as it comes off the wire. -/
def asRaw (h : Header P) : Header P := .raw h.intoBytes

/-- A block and its raw form have the same bytes. -/
@[simp] theorem intoBytes_asRaw (h : Header P) : h.asRaw.intoBytes = h.intoBytes := rfl

/-- Blocks are compared by their bytes. -/
theorem beq_iff (h h' : Header P) : (h == h') = true ↔ h.intoBytes = h'.intoBytes :=
  beq_iff_eq (α := Bytes)

end Header

/-- The bytes of the first block stand before those of the others. -/
@[simp] theorem headerBytes_cons (h : Header P) (header : List (Header P)) :
    headerBytes (h :: header) = h.intoBytes :: headerBytes header := rfl

/-- Raw blocks have the bytes of the blocks. -/
@[simp] theorem headerBytes_asRaw (header : List (Header P)) :
    headerBytes (header.map Header.asRaw) = headerBytes header := by
  simp [headerBytes, Function.comp_def]

/-- Raw blocks are their bytes. -/
@[simp] theorem headerBytes_map_raw (blocks : List Bytes) :
    headerBytes (blocks.map (Header.raw : Bytes → Header P)) = blocks := by
  simp [headerBytes, Function.comp_def]

/-- There are as many byte strings as blocks. -/
theorem headerBytes_length (header : List (Header P)) :
    (headerBytes header).length = header.length := List.length_map _

/-- Headers are compared by the bytes of their blocks. -/
theorem header_beq_iff (header header' : List (Header P)) :
    (header == header') = true ↔ headerBytes header = headerBytes header' := by
  induction header generalizing header' with
  | nil => cases header' <;> simp [headerBytes]
  | cons h header ih =>
      cases header' with
      | nil => simp [headerBytes]
      | cons h' header' =>
          rw [List.cons_beq_cons, Bool.and_eq_true, Header.beq_iff, ih]
          simp [headerBytes]

namespace Onion

/-- The onion as it comes off the wire. -/
def asRaw (o : Onion P) : Onion P := { o with header := o.header.map Header.asRaw }

/-- Its blocks are raw. -/
@[simp] theorem asRaw_header (o : Onion P) : o.asRaw.header = o.header.map Header.asRaw := rfl

/-- Its forward section is the same. -/
@[simp] theorem asRaw_forward (o : Onion P) : o.asRaw.forward = o.forward := rfl

/-- Its backward section is the same. -/
@[simp] theorem asRaw_backward (o : Onion P) : o.asRaw.backward = o.backward := rfl

/-- An onion and its raw form have the same identifier. -/
@[simp] theorem packedHeader_asRaw (o : Onion P) : o.asRaw.packedHeader = o.packedHeader := by
  simp [packedHeader, List.flatMap_map]

/-- Onions are compared by the bytes of their blocks and by their sections. -/
theorem beq_iff (o o' : Onion P) : (o == o') = true ↔
    headerBytes o.header = headerBytes o'.header ∧ o.forward = o'.forward ∧
      o.backward = o'.backward := by
  change (o.header == o'.header && o.forward == o'.forward && o.backward == o'.backward) = true ↔ _
  rw [Bool.and_eq_true, Bool.and_eq_true, header_beq_iff, beq_iff_eq, beq_iff_eq, and_assoc]

/-- The raw blocks of an onion are the bytes of its blocks. -/
theorem asRaw_header_eq (o : Onion P) : o.asRaw.header = (headerBytes o.header).map .raw := by
  simp [headerBytes, Header.asRaw]

/-- A raw onion is its own raw form. -/
@[simp] theorem asRaw_asRaw (o : Onion P) : o.asRaw.asRaw = o.asRaw := by
  simp [asRaw, Header.asRaw, Function.comp_def]

/-- Two onions are equal exactly when their raw forms are the same. -/
theorem beq_iff_asRaw_eq (o o' : Onion P) : (o == o') = true ↔ o.asRaw = o'.asRaw := by
  rw [beq_iff]
  constructor
  · rintro ⟨hh, hf, hb⟩
    have hraw : o.asRaw.header = o'.asRaw.header := by
      rw [asRaw_header_eq, asRaw_header_eq, hh]
    cases o
    cases o'
    cases hf
    cases hb
    exact congrArg (Onion.mk · _ _) hraw
  · intro h
    have hheader := congrArg (fun o => headerBytes o.header) h
    have hforward := congrArg Onion.forward h
    have hbackward := congrArg Onion.backward h
    exact ⟨by simpa using hheader, hforward, hbackward⟩

end Onion

/-- A processed onion with the blocks of the onion it carries raw. -/
def ProcessedOnion.asRaw : ProcessedOnion P → ProcessedOnion P
  | .hop next o => .hop next o.asRaw
  | .receiver payload => .receiver payload
  | .sender payload => .sender payload

/-- So is a raw result. -/
theorem ProcessedOnion.asRaw_asRaw (r : ProcessedOnion P) : r.asRaw.asRaw = r.asRaw := by
  cases r with
  | hop next o => exact congrArg (ProcessedOnion.hop next) o.asRaw_asRaw
  | receiver payload => rfl
  | sender payload => rfl

/-! ## Lengths -/

/-- The list and each block in it are vectors: their lengths fit into 64 bits. -/
def AddressableHeader (header : List (Header P)) : Prop :=
  header.length < 2 ^ 64 ∧ ∀ h ∈ header, h.intoBytes.length < 2 ^ 64

/-- All parts of the onion are vectors: their lengths fit into 64 bits. -/
structure Onion.Addressable (o : Onion P) : Prop where
  header : AddressableHeader o.header
  forward : o.forward.length < 2 ^ 64
  backward : o.backward.1.length < 2 ^ 64

/-- The bytes of such a header can be written. -/
theorem AddressableHeader.fits {header : List (Header P)} (h : AddressableHeader header) :
    Codec.bytes.list.Fits (headerBytes header) := by
  constructor
  · exact (headerBytes_length header).trans_lt h.1
  · intro bs hbs
    obtain ⟨block, hblock, rfl⟩ := List.mem_map.mp hbs
    exact (Codec.bytes_fits _).mpr (h.2 block hblock)

/-- The header stays one without its first block. -/
theorem AddressableHeader.tail {header : List (Header P)} (h : AddressableHeader header) :
    AddressableHeader header.tail :=
  ⟨lt_of_le_of_lt (by simp) h.1, fun block hblock => h.2 block (List.mem_of_mem_tail hblock)⟩

/-- As many blocks as the path limit, each of the length of a single header.
SRC: src/lib.rs:304-316 -/
structure HeaderShape (F : OnionFormat P) (header : List (Header P)) : Prop where
  count : header.length = F.pathLimit
  block : ∀ bs ∈ headerBytes header, bs.length = F.singleHeaderLength

/-- The header of the onion has the shape that the format gives it. -/
def Onion.WellFormed (F : OnionFormat P) (o : Onion P) : Prop := HeaderShape F o.header

end Eror.Model
