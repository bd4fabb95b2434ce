import CmStream.Container.FormatError

/-!
# The decompressor image

Behind the terminator, at the next multiple of sixteen bytes from the beginning of the stream,
lies the code that decompresses the blocks. It begins with a header of its own: a signature,
the entry point, and the length in paragraphs. Length and entry point count from the header.
-/

namespace CmStream

/-- The number of bytes of a paragraph. -/
def paragraph : Nat := 16

structure Image where
  /-- Where the image begins in its stream. -/
  offset : Nat
  entry : Word
  paragraphs : Word
  /-- The whole image with its header. -/
  code : List Byte
  deriving DecidableEq, Repr

namespace Image

/-- The number of bytes that the header takes up. -/
def headerLength : Nat := 6

/-- Reads the image that begins at a reader. -/
def read (r : Reader) : Except FormatError Image := do
  let (signature, behind) ← r.nextWord
  if signature ≠ streamSignature then throw (.badImageSignature r.position signature)
  let (entry, behind) ← behind.nextWord
  let (paragraphs, _) ← behind.nextWord
  let length := paragraphs.toNat * paragraph
  if r.remaining < length then throw (.imageTooLong r.position length r.remaining)
  return ⟨r.position, entry, paragraphs, r.rest.take length⟩

end Image

end CmStream
