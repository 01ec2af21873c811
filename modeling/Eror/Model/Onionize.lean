import Eror.Model.Layer

/-!
# Building an onion

`onionize` in the order of the source: the public-key ciphertexts of all hops, the table
of predicted trailing blocks, the random blocks of a path that is shorter than the limit,
the payload, and then one `wrap` for each hop but the last, from the inside out.

The randomness source is the state of `Draw`; a stage that does not draw is an `Exec`.
Beyond the first lookup of the last hop the path is known to have between one and
`max_path_length` hops, so no subtraction below underflows.
-/

set_option autoImplicit false

namespace Eror.Model

open Library

/-- A computation that draws from a randomness source. -/
abbrev Draw (R : Type) := StateT R Exec

/-- Draw a value by a method that cannot fail. -/
def draw {R α : Type} (f : R → α × R) : Draw R α := fun rng => .ok (f rng)

variable {R : Type} {P : Primitives R}

/-! ## The table of header blocks -/

/-- What the loops do with `header_blocks`: that they are stated for every such table makes it
possible to run them over one that also notes what is assigned. -/
class HeaderTable {R : outParam Type} (P : outParam (Primitives R)) (T : Type) where
  /-- `vec![vec![Header::Raw(Vec::new()); n]; n]` -/
  empty : ℕ → T
  /-- `header_blocks[i][j]` -/
  get : T → ℕ → ℕ → Exec (Header P)
  /-- `header_blocks[i][j] = h` -/
  set : T → ℕ → ℕ → Header P → Exec T

/-- `header_blocks`, row by row. -/
abbrev BlockTable (P : Primitives R) := List (List (Header P))

namespace BlockTable

/-- `header_blocks[i][j]` -/
def get (t : BlockTable P) (i j : ℕ) : Exec (Header P) := do
  let row ← orPanic t[i]?
  orPanic row[j]?

/-- `header_blocks[i][j] = h` -/
def set (t : BlockTable P) (i j : ℕ) (h : Header P) : Exec (BlockTable P) := do
  let row ← orPanic t[i]?
  let _ ← orPanic row[j]?
  return List.set t i (row.set j h)

/-- `vec![vec![Header::Raw(Vec::new()); n]; n]` -/
def empty (P : Primitives R) (n : ℕ) : BlockTable P :=
  List.replicate n (List.replicate n (.raw []))

/-- The table that the program uses. -/
instance : HeaderTable P (BlockTable P) := ⟨empty P, get, set⟩

/-- The class creates a block table as the program does. -/
theorem headerTable_empty (n : ℕ) : (HeaderTable.empty n : BlockTable P) = empty P n := rfl

/-- It reads a block table as the program does. -/
theorem headerTable_get (t : BlockTable P) (i j : ℕ) : HeaderTable.get t i j = get t i j := rfl

/-- It assigns to a block table as the program does. -/
theorem headerTable_set (t : BlockTable P) (i j : ℕ) (h : Header P) :
    HeaderTable.set t i j h = set t i j h := rfl

end BlockTable

namespace OnionFormat

variable (F : OnionFormat P)

section Table

variable {T : Type} [HeaderTable P T]

/-- One cell of the prediction: the block behind it in the row above, decrypted.
SRC: src/lib.rs:466-468 -/
def predictBlock (keySymmetric : P.SymmetricKey) (i : ℕ) (t : T) (j : ℕ) : Exec T := do
  let block ← HeaderTable.get t i (j + 1)
  let data := P.symmetricDecrypt keySymmetric (blockNonce j) block.intoBytes
  HeaderTable.set t (i + 1) j (.raw data)

/-- One round of the outer loop: fill row `i + 1` from row `i`.  SRC: src/lib.rs:464-473 -/
def predictRow (keysSymmetric : List P.SymmetricKey) (t : T) (i : ℕ) : Exec T := do
  let keySymmetric ← orPanic keysSymmetric[i]?
  let t ← (range (F.pathLimit - i - 1) (F.pathLimit - 1)).foldlM (predictBlock keySymmetric i) t
  HeaderTable.set t (i + 1) (F.pathLimit - 1) (.raw (F.fillBlock keySymmetric))

/-- All deterministic blocks.  SRC: src/lib.rs:463-473 -/
def headerBlocks (keysSymmetric : List P.SymmetricKey) (n : ℕ) : Exec T :=
  (range 0 (n - 1)).foldlM (F.predictRow keysSymmetric) (HeaderTable.empty F.pathLimit)

/-- A block of random bytes.  SRC: src/lib.rs:322-324 -/
def randomHeader [Rng R] : Draw R (Header P) := do
  let bytes ← draw (genBytes F.singleHeaderLength)
  return .raw bytes

/-- The remaining blocks of the last row, at random.  SRC: src/lib.rs:477-479 -/
def fillGarbage [Rng R] (n : ℕ) (t : T) : Draw R T :=
  (range 1 (F.pathLimit - n + 1)).foldlM (fun t j => do
    let block ← F.randomHeader
    (HeaderTable.set t (n - 1) j block : Exec _)) t

end Table

/-! ## The other stages -/

/-- The public-key ciphertext of one hop.  SRC: src/lib.rs:450-453 -/
def metaCipher (key : P.SymmetricKey) (address : Address) (hopMeta : Meta) : Draw R Bytes := do
  let pubkey ← orErr (F.pki.get address) .keyNotFound
  let blockData := (keyMetaCodec P).encode (key, hopMeta)
  draw fun rng => P.asymmetricEncrypt rng pubkey blockData

/-- The ciphertexts of all hops but the last.  SRC: src/lib.rs:449-454 -/
def metaCiphersHop (keys : List P.SymmetricKey) (hops : List Address) : Draw R (List Bytes) :=
  ((keys.zip hops).zip (hops.drop 1)).mapM fun e =>
    F.metaCipher e.1.1 e.1.2 ⟨.hop, e.2⟩

/-- All public-key ciphertexts.  SRC: src/lib.rs:448-460 -/
def metaCiphers (keys : List P.SymmetricKey) (hops : List Address) (hopMeta : Meta) :
    Draw R (List Bytes) := do
  let ciphers ← F.metaCiphersHop keys hops
  let address ← (orPanic hops.getLast? : Exec _)
  let key ← (orPanic keys.getLast? : Exec _)
  let cipher ← F.metaCipher key address hopMeta
  return ciphers ++ [cipher]

/-- What the payload determines: the innermost forward section, the backward section of the
first and of the last onion, and the tag the last hop will read. -/
structure Payloads (P : Primitives R) where
  fwdN : Bytes
  bwd : Backward P
  bwdN : Backward P
  expectedTag : P.Tag

/-- The sections of an onion for a payload.  A backward onion has an empty backward section.
SRC: src/lib.rs:482-509 -/
def payloads [Rng R] (keys keysSymmetric : List P.SymmetricKey) (payload : Payload)
    (backwardPayloadLength : ℕ) : Draw R (Payloads P) :=
  match payload with
  | .forward data => do
      let keySymmetric ← (orPanic keysSymmetric[keys.length - 1]? : Exec _)
      let fwdN := P.symmetricEncrypt keySymmetric nonceFwd data
      let garbage ← draw (genBytes backwardPayloadLength)
      let tag ← draw P.randomTag
      let bwd : Backward P := (garbage, tag)
      let bwdN ← (keys.dropLast.foldlM (fun bwd key => aeUnwrap P key bwd) bwd : Exec _)
      let key ← (orPanic keys.getLast? : Exec _)
      let last ← (aeUnwrap P key bwdN : Exec _)
      return ⟨fwdN, bwd, bwdN, last.2⟩
  | .backward data =>
      let fwdN := keysSymmetric.dropLast.foldl
        (fun data key => P.symmetricDecrypt key nonceFwd data) data
      return ⟨fwdN, ([], P.defaultTag), ([], P.defaultTag), P.defaultTag⟩

/-- The loop of `wrap`s, for `i` from `n - 2` down to `0`: drop the last block, then put on the
layer of hop `i`.  SRC: src/lib.rs:516-523 -/
def wrapAll (P : Primitives R) (keys : List P.SymmetricKey) (ciphers : List Bytes)
    (headers : List (Header P)) (fwd : Bytes) : List (Header P) × Bytes :=
  ((keys.zip ciphers).dropLast).reverse.foldl
    (fun layer e => wrap P e.1 e.2 layer.1.dropLast layer.2) (headers, fwd)

/-- Assemble an onion from the keys of its hops: the onion for the first hop, the one that the last
hop will receive, and the tag that it will read.  SRC: src/lib.rs:423-538 -/
def onionize [Rng R] (keys : List P.SymmetricKey) (hops : List Address) (hopMeta : Meta)
    (payload : Payload) (backwardPayloadLength : ℕ) : Draw R (Onion P × Onion P × P.Tag) := do
  if keys.length ≠ hops.length then
    throw .panic
  else if hops.length > F.pathLimit then
    throw (.err .pathTooLong)
  else do
    let n := keys.length
    let keysSymmetric := keys.map (P.deriveKey .symEnc)
    let keysMac := keys.map (P.deriveKey .mac)
    let ciphers ← F.metaCiphers keys hops hopMeta
    let blocks ← (F.headerBlocks keysSymmetric n : Exec (BlockTable P))
    let blocks ← F.fillGarbage n blocks
    let sections ← payloads keys keysSymmetric payload backwardPayloadLength
    let cipherN ← (orPanic ciphers[n - 1]? : Exec _)
    let row ← (orPanic blocks[n - 1]? : Exec _)
    let keyMac ← (orPanic keysMac[n - 1]? : Exec _)
    let tag := P.tag keyMac (macInput cipherN (row.drop 1) sections.fwdN)
    let headersN := Header.structured tag cipherN :: row.drop 1
    let (headers, fwd) := wrapAll P keys ciphers headersN sections.fwdN
    let onion1 : Onion P := ⟨headers, fwd, sections.bwd⟩
    let onionN : Onion P := ⟨headersN, sections.fwdN, sections.bwdN⟩
    return (onion1, onionN, sections.expectedTag)

end OnionFormat

end Eror.Model
