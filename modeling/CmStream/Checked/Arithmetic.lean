import CmStream.Checked.Number
import CmStream.Machine.Decimal
import CmStream.Machine.Product
import CmStream.Machine.Shift

/-!
# Arithmetic on wider numbers

Operands of eight or sixteen bits are computed with as numbers of 32 bits, signed dividends as
numbers of 64 bits, and results are cut down afterwards. What stands in the way of the result at
any point is that a number in between does not have the bits, or that a divisor is zero.
-/

namespace CmStream

namespace Checked

/-! ## Sums and differences -/

/-- The carry is what the sum of 32 bits has above the width of the operands. -/
def sum {n : Nat} (a b : BitVec n) (carry : Bool) (flags : Word) : Option (Computed n) := do
  let operands ← Number.add 32 a.toNat b.toNat
  let full ← Number.add 32 operands carry.toNat
  let value := BitVec.ofNat n full
  let flags := Flags.set flags .carry (decide (1 <<< n ≤ full))
  let flags := Flags.set flags .overflow ((a ^^^ value) &&& (b ^^^ value)).msb
  let flags := Flags.set flags .auxiliary ((a ^^^ b ^^^ value).getLsbD 4)
  return ⟨value, Flags.describe flags value⟩

/-- The difference wraps; what it takes away is added up to tell whether it borrows. -/
def difference {n : Nat} (a b : BitVec n) (borrow : Bool) (flags : Word) : Option (Computed n) := do
  let taken ← Number.add 32 b.toNat borrow.toNat
  let value := a - b - Arithmetic.ofCarry n borrow
  let flags := Flags.set flags .carry (decide (a.toNat < taken))
  let flags := Flags.set flags .overflow ((a ^^^ b) &&& (a ^^^ value)).msb
  let flags := Flags.set flags .auxiliary ((a ^^^ b ^^^ value).getLsbD 4)
  return ⟨value, Flags.describe flags value⟩

def increment {n : Nat} (a : BitVec n) (flags : Word) : Option (Computed n) := do
  let more ← sum a (Arithmetic.ofCarry n true) false flags
  return { more with flags := Flags.set more.flags .carry (Flags.get flags .carry) }

def decrement {n : Nat} (a : BitVec n) (flags : Word) : Option (Computed n) := do
  let less ← difference a (Arithmetic.ofCarry n true) false flags
  return { less with flags := Flags.set less.flags .carry (Flags.get flags .carry) }

def compute {n : Nat} (operation : Arithmetic.Operation) (a b : BitVec n) (flags : Word) :
    Option (Computed n) :=
  match operation with
  | .add => sum a b false flags
  | .or => some (Arithmetic.bitwise (a ||| b) flags)
  | .adc => sum a b (Flags.get flags .carry) flags
  | .sbb => difference a b (Flags.get flags .carry) flags
  | .and => some (Arithmetic.bitwise (a &&& b) flags)
  | .sub => difference a b false flags
  | .xor => some (Arithmetic.bitwise (a ^^^ b) flags)
  | .cmp => difference a b false flags

/-! ## Shifts -/

namespace Shift

open CmStream.Shift (State)

/-- One place to the left: no bit of the operand leaves the 32 bits. -/
def left {n : Nat} (value : BitVec n) (incoming : Bool) : Option (BitVec n) := do
  let shifted ← Number.shiftLeft 32 value.toNat 1
  return BitVec.ofNat n (shifted ||| incoming.toNat)

def right {n : Nat} (value : BitVec n) (incoming : Bool) : Option (BitVec n) := do
  let shifted ← Number.shiftRight 32 value.toNat 1
  return BitVec.ofNat n shifted ||| (if incoming then BitVec.intMin n else 0)

def leftState {n : Nat} (value : BitVec n) (incoming : Bool) : Option (State n) := do
  let shifted ← left value incoming
  return ⟨shifted, value.msb, shifted.msb != value.msb⟩

/-- The bit below the topmost one is looked at by shifting once more, to the left. -/
def rightState {n : Nat} (value : BitVec n) (incoming : Bool) : Option (State n) := do
  let shifted ← right value incoming
  let again ← Number.shiftLeft 32 shifted.toNat 1
  return ⟨shifted, value.getLsbD 0, shifted.msb != (BitVec.ofNat n again).msb⟩

def place {n : Nat} (shift : CmStream.Shift) (s : State n) : Option (State n) :=
  match shift with
  | .rol => leftState s.value s.value.msb
  | .ror => rightState s.value (s.value.getLsbD 0)
  | .rcl => leftState s.value s.carry
  | .rcr => rightState s.value s.carry
  | .shl => leftState s.value false
  | .shr => do
    let shifted ← right s.value false
    return ⟨shifted, s.value.getLsbD 0, s.value.msb⟩
  | .sar => do
    let shifted ← right s.value s.value.msb
    return ⟨shifted, s.value.getLsbD 0, false⟩

/-- So many places, one after the other. -/
def repeated {n : Nat} (shift : CmStream.Shift) (s : State n) : Nat → Option (State n)
  | 0 => some s
  | count + 1 => do
    let earlier ← repeated shift s count
    place shift earlier

def compute {n : Nat} (shift : CmStream.Shift) (value : BitVec n) (count : Byte) (flags : Word) :
    Option (Computed n) := do
  let places := CmStream.Shift.places count
  if places = 0 then return ⟨value, flags⟩
  let last ← repeated shift ⟨value, Flags.get flags .carry, false⟩ places
  let flags := Flags.set flags .carry last.carry
  let flags := Flags.set flags .overflow last.overflow
  return ⟨last.value, if shift.isRotation then flags else Flags.describe flags last.value⟩

end Shift

/-! ## Bytes of a word -/

/-- The byte that is stored second. -/
def upperByte (w : Word) : Option Byte := do
  let shifted ← Number.shiftRight 16 w.toNat 8
  return BitVec.ofNat 8 shifted

/-- The word with the given first and second byte. -/
def joinBytes (first second : Byte) : Option Word := do
  let shifted ← Number.shiftLeft 16 second.toNat 8
  return BitVec.ofNat 16 (shifted ||| first.toNat)

/-! ## Products and quotients -/

/-- A product of twice the width of its factors. -/
def product {n : Nat} (a b : BitVec n) : Option (Product.Halves n) := do
  let product ← Number.multiply (2 * n) a.toNat b.toNat
  let shifted ← Number.shiftRight (2 * n) product n
  let upper := BitVec.ofNat n shifted
  return ⟨BitVec.ofNat n product, upper, upper != 0⟩

/-- A product of 32 bits with a sign. -/
def signedProduct {n : Nat} (a b : BitVec n) : Option (Product.Halves n) := do
  let product ← Signed.multiply 32 a.toInt b.toInt
  let shifted ← Signed.shiftRight 32 product n
  let lower := BitVec.ofInt n product
  return ⟨lower, BitVec.ofInt n shifted, decide (lower.toInt ≠ product)⟩

/-- The number of 32 bits that has the given halves. -/
def joined {n : Nat} (upper lower : BitVec n) : Option Nat := do
  let shifted ← Number.shiftLeft 32 upper.toNat n
  return shifted ||| lower.toNat

/-- A quotient of numbers of 32 bits, unless the divisor is zero or the quotient is too large. -/
def quotient? {n : Nat} (upper lower divisor : BitVec n) :
    Option (Option (Quotient.Result n)) := do
  if divisor = 0 then return none
  let dividend ← joined upper lower
  let quotient ← Number.divide dividend divisor.toNat
  if 1 <<< n ≤ quotient then return none
  let remainder ← Number.remainder dividend divisor.toNat
  let result : Quotient.Result n := ⟨BitVec.ofNat n quotient, BitVec.ofNat n remainder⟩
  -- Of bytes, both results go into one register.
  let _ ← joined result.remainder result.quotient
  return some result

/-- A quotient of numbers of 64 bits with a sign. -/
def signedQuotient? {n : Nat} (upper lower divisor : BitVec n) :
    Option (Option (Quotient.Result n)) := do
  if divisor = 0 then return none
  let halves ← joined upper lower
  let dividend := (BitVec.ofNat (n + n) halves).toInt
  let quotient ← Signed.divide 64 dividend divisor.toInt
  if (BitVec.ofInt n quotient).toInt ≠ quotient then return none
  let remainder ← Signed.remainder 64 dividend divisor.toInt
  return some ⟨BitVec.ofInt n quotient, BitVec.ofInt n remainder⟩

/-- Quotient and remainder of a byte by a base, unless the base is zero. -/
def split? (base al : Byte) (flags : Word) : Option (Option (Computed 16)) := do
  if base = 0 then return none
  let quotient ← Number.divide al.toNat base.toNat
  let remainder ← Number.remainder al.toNat base.toNat
  let lower := BitVec.ofNat 8 remainder
  let value ← joinBytes lower (BitVec.ofNat 8 quotient)
  return some ⟨value, Flags.describe flags lower⟩

end Checked

end CmStream
