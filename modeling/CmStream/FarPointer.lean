import CmStream.Text.Hex

/-!
# Far pointers

A segment and an offset name a linear address. Two pointers are equal only if both halves are:
`0000:0010` and `0001:0000` name the same byte and are different pointers.
-/

namespace CmStream

structure FarPointer where
  segment : Word
  offset : Word
  deriving DecidableEq, Repr

namespace FarPointer

/-- The address sixteen times the segment plus the offset. It does not wrap at one megabyte. -/
def linear (p : FarPointer) : Nat :=
  p.segment.toNat * 16 + p.offset.toNat

/-- The pointer `n` bytes further along; the offset wraps within the segment. -/
def advance (p : FarPointer) (n : Word) : FarPointer :=
  { p with offset := p.offset + n }

/-- Four digits each of segment and offset, with a colon between them. -/
def text (p : FarPointer) : String :=
  Text.hex 4 p.segment.toNat ++ ":" ++ Text.hex 4 p.offset.toNat

/-- The highest address that a far pointer can name. -/
def maxLinear : Nat := 0x10ffef

theorem linear_le (p : FarPointer) : p.linear ≤ maxLinear := by
  have hs := p.segment.isLt
  have ho := p.offset.isLt
  simp only [linear, maxLinear]
  omega

end FarPointer

end CmStream
