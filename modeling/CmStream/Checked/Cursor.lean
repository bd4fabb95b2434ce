import CmStream.Checked.Number
import CmStream.Container.FormatError

/-!
# Reading by position

A cursor keeps all the bytes and the place it has come to, and takes what it reads out of the bytes
as a slice. It does the same as a reader, which keeps the bytes that are left.
-/

namespace CmStream

namespace Checked

structure Cursor where
  buffer : List Byte
  position : Nat
  deriving DecidableEq, Repr

namespace Cursor

/-- A cursor at the front of some bytes. -/
def ofBytes (bytes : List Byte) : Cursor := ⟨bytes, 0⟩

/-- The number of bytes that are left. -/
def remaining (c : Cursor) : Option Nat := Number.subtract c.buffer.length c.position

/-- The next `n` bytes. -/
def take (c : Cursor) (n : Nat) : Attempt Overrun (List Byte × Cursor) := do
  let available ← c.remaining
  if available < n then throw ⟨c.position, n, available⟩
  let stop ← Number.add 64 c.position n
  let bytes ← slice c.buffer c.position stop
  return (bytes, { c with position := stop })

def nextBytes (c : Cursor) (n : Nat) : Attempt FormatError (List Byte × Cursor) :=
  (c.take n).adapt .overrun

def nextByte (c : Cursor) : Attempt FormatError (Byte × Cursor) := do
  let (bytes, c) ← c.nextBytes 1
  let byte ← (bytes[0]? : Option Byte)
  return (byte, c)

def nextWord (c : Cursor) : Attempt FormatError (Word × Cursor) := do
  let (bytes, c) ← c.nextBytes 2
  let first ← (bytes[0]? : Option Byte)
  let second ← (bytes[1]? : Option Byte)
  return (Word.ofBytes first second, c)

/-- Skips to the next multiple of `m`; says how many bytes it skipped. -/
def nextMultiple (c : Cursor) (m : Nat) : Attempt FormatError (Nat × Cursor) := do
  let past ← Number.remainder c.position m
  let short ← Number.subtract m past
  let padding ← Number.remainder short m
  let (_, c) ← c.nextBytes padding
  return (padding, c)

end Cursor

end Checked

end CmStream
