import CmStream.Container.Block
import CmStream.Container.Image

/-!
# Parsing a stream

A stream is its signature, its blocks up to the terminator, padding of any content up to a
multiple of a paragraph, and the image. What follows the image is not looked at.
-/

namespace CmStream

/-- A stream in which everything has been found. -/
structure Container where
  blocks : List Block
  image : Image
  deriving DecidableEq, Repr

namespace Container

/-- Does the input begin with the signature of a stream, and go on after it? -/
def looksLikeOne (bytes : List Byte) : Bool :=
  match bytes with
  | first :: second :: _ :: _ => Word.ofBytes first second == streamSignature
  | _ => false

/-- What precedes the image: the blocks, the length of the padding, and where the image is. -/
structure Front where
  blocks : List Block
  padding : Nat
  imageReader : Reader
  deriving DecidableEq, Repr

/-- Walks over everything that precedes the image. -/
def readFront (bytes : List Byte) : Except FormatError Front := do
  let (signature, r) ← (Reader.ofBytes bytes).nextWord
  if signature ≠ streamSignature then throw (.badSignature signature)
  let (blocks, r) ← Block.readAll r.remaining r
  let (padding, r) ← r.nextMultiple paragraph
  return ⟨blocks, padding, r⟩

def parse (bytes : List Byte) : Except FormatError Container := do
  let front ← readFront bytes
  let image ← Image.read front.imageReader
  return ⟨front.blocks, image⟩

end Container

end CmStream
