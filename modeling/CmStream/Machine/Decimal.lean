import CmStream.Machine.Arithmetic

/-!
# Decimal arithmetic

Binary sums and differences of decimal digits are corrected afterwards. Packed digits share a
byte, two of them; unpacked digits lie in the two bytes of the accumulator.
-/

namespace CmStream

namespace Decimal

/-- Has the lower digit of a byte left the range of digits, or carried? -/
def lowerOff (al : Byte) (flags : Word) : Bool :=
  decide (9 < al.toNat % 16) || Flags.get flags .auxiliary

/-- Has the byte left the range of two digits, or carried? -/
def upperOff (al : Byte) (flags : Word) : Bool :=
  decide (0x99 < al.toNat) || Flags.get flags .carry

/-- What a byte is off by, if its lower and its upper digit are off as stated. -/
def correction (lower upper : Bool) : Byte :=
  (if lower then 0x06 else 0) + (if upper then 0x60 else 0)

/-- Corrects the sum of two bytes of packed digits. -/
def adjustSum (al : Byte) (flags : Word) : Computed 8 :=
  let lower := lowerOff al flags
  let upper := upperOff al flags
  let value := al + correction lower upper
  let flags := Flags.set flags .auxiliary lower
  let flags := Flags.set flags .carry (upper || (lower && decide (0xff < al.toNat + 6)))
  ⟨value, Flags.describe flags value⟩

/-- Corrects the difference of two bytes of packed digits. -/
def adjustDifference (al : Byte) (flags : Word) : Computed 8 :=
  let lower := lowerOff al flags
  let upper := upperOff al flags
  let value := al - correction lower upper
  let flags := Flags.set flags .auxiliary lower
  let flags := Flags.set flags .carry (upper || (lower && decide (al.toNat < 6)))
  ⟨value, Flags.describe flags value⟩

/-- The accumulator with its lower byte cut down to a digit, and whether it was off. -/
def unpacked (corrected ax : Word) (off : Bool) (flags : Word) : Computed 16 :=
  let value := (if off then corrected else ax) &&& 0xff0f
  ⟨value, Flags.set (Flags.set flags .auxiliary off) .carry off⟩

/-- Corrects the sum of two unpacked digits; a carry goes to the upper byte. -/
def adjustUnpackedSum (ax : Word) (flags : Word) : Computed 16 :=
  unpacked (ax + 0x0106) ax (lowerOff (Word.low ax) flags) flags

/-- Corrects the difference of two unpacked digits; the two bytes do not borrow from each other
beyond the one that the upper byte gives. -/
def adjustUnpackedDifference (ax : Word) (flags : Word) : Computed 16 :=
  unpacked (Word.ofBytes (Word.low ax - 6) (Word.high ax - 1)) ax
    (lowerOff (Word.low ax) flags) flags

/-- Splits a byte into quotient and remainder by a base, the remainder below. There is no
splitting by zero. -/
def split? (base al : Byte) (flags : Word) : Option (Computed 16) :=
  if base = 0 then none
  else some ⟨Word.ofBytes (al % base) (al / base), Flags.describe flags (al % base)⟩

/-- Joins the two bytes of the accumulator to a number in a base, without its upper byte. -/
def join (base : Byte) (ax : Word) (flags : Word) : Computed 16 :=
  let value := Word.low ax + Word.high ax * base
  ⟨Word.ofBytes value 0, Flags.describe flags value⟩

end Decimal

end CmStream
