import CmStream.Reader
import CmStream.Text.Hex

/-!
# Malformed streams

The two signatures of the format, and every way in which a stream can fail to have it.
-/

namespace CmStream

/-- The signature of a stream and of its image: the letters CM as a word. -/
def streamSignature : Word := 0x4d43

/-- The signature of a block's payload: the letters DS as a word. -/
def blockSignature : Word := 0x5344

inductive FormatError where
  /-- The stream ends too early. -/
  | overrun (overrun : Overrun)
  /-- The stream does not begin with its signature. -/
  | badSignature (signature : Word)
  /-- The byte that tells a block from the terminator is neither one nor zero. -/
  | badValidity (offset : Nat) (value : Byte)
  /-- A block without bytes, or a terminator with a length. -/
  | inconsistentLength (offset : Nat) (valid : Bool) (compressedLength : Word)
  /-- The image does not begin with its signature. -/
  | badImageSignature (offset : Nat) (signature : Word)
  /-- The image claims more bytes than there are from its beginning on. -/
  | imageTooLong (offset length available : Nat)
  /-- A payload does not begin with its signature. -/
  | badBlockSignature (signature : Word)
  deriving DecidableEq, Repr

namespace FormatError

def message : FormatError → String
  | overrun o => o.message
  | badSignature signature =>
    "bad stream signature " ++ Text.markedHex 4 signature.toNat ++ "; expected "
      ++ Text.markedHex 4 streamSignature.toNat
  | badValidity offset value =>
    "block at offset " ++ toString offset ++ " has validity byte "
      ++ Text.markedHex 2 value.toNat ++ "; expected 0 or 1"
  | inconsistentLength offset valid compressedLength =>
    "block at offset " ++ toString offset ++ " has validity " ++ toString valid.toNat
      ++ " with compressed length " ++ toString compressedLength.toNat
  | badImageSignature offset signature =>
    "bad decompressor signature " ++ Text.markedHex 4 signature.toNat ++ " at offset "
      ++ toString offset ++ "; expected " ++ Text.markedHex 4 streamSignature.toNat
  | imageTooLong offset length available =>
    "decompressor at offset " ++ toString offset ++ " is " ++ toString length
      ++ " bytes long, but only " ++ toString available ++ " bytes remain"
  | badBlockSignature signature =>
    "bad block signature " ++ Text.markedHex 4 signature.toNat ++ "; expected "
      ++ Text.markedHex 4 blockSignature.toNat

end FormatError

namespace Reader

/-! Reads of a stream, where an overrun is one of the format's errors. -/

def nextByte (r : Reader) : Except FormatError (Byte × Reader) :=
  r.byte.mapError .overrun

def nextWord (r : Reader) : Except FormatError (Word × Reader) :=
  r.word.mapError .overrun

def nextBytes (r : Reader) (n : Nat) : Except FormatError (List Byte × Reader) :=
  (r.take n).mapError .overrun

def nextMultiple (r : Reader) (m : Nat) : Except FormatError (Nat × Reader) :=
  (r.align m).mapError .overrun

end Reader

end CmStream
