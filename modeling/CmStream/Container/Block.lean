import CmStream.Container.FormatError

/-!
# Compressed blocks

A block is a byte one, the length of its payload, the length that the payload has when it is
decompressed, and the payload. A byte zero and a length of zero end the sequence of blocks.
The payload begins with a header of six bytes: a signature, a word that means nothing, and a
word of control for the decompressor.
-/

namespace CmStream

structure Block where
  /-- Where the block begins in its stream. -/
  offset : Nat
  uncompressedLength : Word
  payload : List Byte
  deriving DecidableEq, Repr

structure BlockHeader where
  reserved : Word
  control : Word
  deriving DecidableEq, Repr

namespace BlockHeader

/-- The number of bytes that a header takes up. -/
def length : Nat := 6

end BlockHeader

namespace Block

def compressedLength (block : Block) : Word := BitVec.ofNat 16 block.payload.length

/-- The header at the front of the payload. -/
def header (block : Block) : Except FormatError BlockHeader := do
  let (signature, r) ← (Reader.ofBytes block.payload).nextWord
  if signature ≠ blockSignature then throw (.badBlockSignature signature)
  let (reserved, r) ← r.nextWord
  let (control, _) ← r.nextWord
  return ⟨reserved, control⟩

/-- Reads one block, or nothing at the terminator. -/
def read? (r : Reader) : Except FormatError (Option Block × Reader) := do
  let offset := r.position
  let (validity, r) ← r.nextByte
  if 1 < validity.toNat then throw (.badValidity offset validity)
  let valid := validity == 1
  let (length, r) ← r.nextWord
  if valid ≠ (length != 0) then throw (.inconsistentLength offset valid length)
  if !valid then return (none, r)
  let (uncompressedLength, r) ← r.nextWord
  let (payload, r) ← r.nextBytes length.toNat
  return (some ⟨offset, uncompressedLength, payload⟩, r)

/-- Every block up to the terminator, and a reader behind the terminator. There are fewer
blocks than bytes, so as many attempts as there are bytes are enough. -/
def readAll : (attempts : Nat) → Reader → Except FormatError (List Block × Reader)
  | 0, r => .error (.overrun ⟨r.position, 1, r.remaining⟩)
  | attempts + 1, r => do
    match ← read? r with
    | (none, r) => return ([], r)
    | (some block, r) =>
      let (blocks, r) ← readAll attempts r
      return (block :: blocks, r)

end Block

end CmStream
