import CmStream.Container.Parse

/-!
# Writing streams

The written form of blocks, of an image and of a whole stream. Parsing finds in a written
stream what was written into it; the padding is free, and zero where it is chosen here.
-/

namespace CmStream

/-- Zero bytes up to the next multiple of a paragraph. -/
def paragraphPadding (position : Nat) : List Byte :=
  List.replicate (Reader.padding paragraph position) 0

namespace Block

/-- A block with the given payload as it stands in a stream. -/
def encode (uncompressedLength : Word) (payload : List Byte) : List Byte :=
  1 :: (Word.toBytes (BitVec.ofNat 16 payload.length) ++ Word.toBytes uncompressedLength ++ payload)

/-- The payload that carries a word of control and some data. -/
def payloadOf (control : Word) (data : List Byte) : List Byte :=
  Word.toBytes blockSignature ++ Word.toBytes 0 ++ Word.toBytes control ++ data

/-- What ends the sequence of blocks. -/
def terminator : List Byte := [0, 0, 0]

end Block

namespace Image

/-- The image of a routine that lies behind the header and a gap of halting instructions. -/
def encodeAt (entry : Word) (routine : List Byte) : List Byte :=
  let gap := List.replicate (entry.toNat - headerLength) 0xf4
  let body := gap ++ routine
  let tail := paragraphPadding (headerLength + body.length)
  let paragraphs := (headerLength + body.length + tail.length) / paragraph
  Word.toBytes streamSignature ++ Word.toBytes entry ++ Word.toBytes (BitVec.ofNat 16 paragraphs)
    ++ body ++ tail

/-- The image of a routine right behind the header. -/
def encode (routine : List Byte) : List Byte := encodeAt (BitVec.ofNat 16 headerLength) routine

end Image

namespace Container

/-- The part of a stream before its padding: the signature, the blocks and the terminator. -/
def encodeBlocks (blocks : List (Word × List Byte)) : List Byte :=
  Word.toBytes streamSignature
    ++ (blocks.flatMap fun (uncompressedLength, payload) => Block.encode uncompressedLength payload)
    ++ Block.terminator

/-- The stream of the given lengths and payloads with an image that is already written. -/
def encodeWith (blocks : List (Word × List Byte)) (image : List Byte) : List Byte :=
  let front := encodeBlocks blocks
  front ++ paragraphPadding front.length ++ image

/-- The stream of the given lengths and payloads with the image of a routine. -/
def encode (blocks : List (Word × List Byte)) (routine : List Byte) : List Byte :=
  encodeWith blocks (Image.encode routine)

end Container

end CmStream
