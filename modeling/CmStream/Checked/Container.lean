import CmStream.Checked.Cursor
import CmStream.Container.Parse

/-!
# Parsing a stream by position

The stream is gone through twice: once to find the image, without keeping the blocks, and once more
block by block while they are decompressed.
-/

namespace CmStream

namespace Checked

/-- The header at the front of a payload. -/
def readHeader (block : Block) : Attempt FormatError BlockHeader := do
  let (signature, c) ← (Cursor.ofBytes block.payload).nextWord
  if signature ≠ blockSignature then throw (.badBlockSignature signature)
  let (reserved, c) ← c.nextWord
  let (control, _) ← c.nextWord
  return ⟨reserved, control⟩

/-- One block, or nothing at the terminator. -/
def readBlock (c : Cursor) : Attempt FormatError (Option Block × Cursor) := do
  let offset := c.position
  let (validity, c) ← c.nextByte
  if 1 < validity.toNat then throw (.badValidity offset validity)
  let valid := validity == 1
  let (length, c) ← c.nextWord
  if valid ≠ (length != 0) then throw (.inconsistentLength offset valid length)
  if !valid then return (none, c)
  let (uncompressedLength, c) ← c.nextWord
  let (payload, c) ← c.nextBytes length.toNat
  return (some ⟨offset, uncompressedLength, payload⟩, c)

/-- Goes to the end of the blocks; a cursor behind the terminator. There are fewer blocks than
turns, or else the loop would not be defined. -/
def skipBlocks : (turns : Nat) → Cursor → Attempt FormatError Cursor
  | 0, _ => undefined
  | turns + 1, c => do
    match ← readBlock c with
    | (none, c) => return c
    | (some _, c) => skipBlocks turns c

/-- The image at the next paragraph, taken out of all the bytes by where it begins and ends. -/
def readImage (bytes : List Byte) (c : Cursor) : Attempt FormatError Image := do
  let (_, c) ← c.nextMultiple paragraph
  let offset := c.position
  let available ← c.remaining
  let (signature, c) ← c.nextWord
  if signature ≠ streamSignature then throw (.badImageSignature offset signature)
  let (entry, c) ← c.nextWord
  let (paragraphs, _) ← c.nextWord
  let length ← Number.multiply 64 paragraphs.toNat paragraph
  if available < length then throw (.imageTooLong offset length available)
  let stop ← Number.add 64 offset length
  let code ← slice bytes offset stop
  return ⟨offset, entry, paragraphs, code⟩

/-- A stream whose blocks have been gone through and whose image has been found. -/
structure Parsed where
  /-- Where the blocks begin. -/
  start : Cursor
  image : Image
  deriving DecidableEq, Repr

def parse (bytes : List Byte) : Attempt FormatError Parsed := do
  let (signature, start) ← (Cursor.ofBytes bytes).nextWord
  if signature ≠ streamSignature then throw (.badSignature signature)
  let behind ← skipBlocks (bytes.length + 1) start
  let image ← readImage bytes behind
  return ⟨start, image⟩

end Checked

end CmStream
