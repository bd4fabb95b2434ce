import CmStream.Machine.Combining

/-!
# Products and quotients as numbers

Multiplications and divisions come unsigned and in two's complement, for bytes and for words. The
accumulator and the register that extends it hold a product or a dividend of twice the width.
-/

namespace CmStream

namespace Arithmetic

/-- What some bits stand for, in two's complement if they are signed. -/
def number {n : Nat} (signed : Bool) (value : BitVec n) : Int :=
  match signed with
  | false => value.toNat
  | true => value.toInt

/-- The number is what some `n` bits stand for. -/
def IsNumber (signed : Bool) (n : Nat) (x : Int) : Prop :=
  ∃ value : BitVec n, number signed value = x

/-- The divisor is not zero, and the quotient, truncated toward zero, is a number of the width. -/
def QuotientFits (signed : Bool) (n : Nat) (dividend divisor : Int) : Prop :=
  divisor ≠ 0 ∧ IsNumber signed n (dividend.tdiv divisor)

/-- Quotient and remainder of a division that truncates toward zero. -/
structure Divides (dividend divisor quotient remainder : Int) : Prop where
  sum : dividend = quotient * divisor + remainder
  small : remainder.natAbs < divisor.natAbs
  sign : remainder = 0 ∨ remainder.sign = dividend.sign

end Arithmetic

/-- What a product leaves of the flags: carry and overflow both say that it does not fit, and the
others stay. -/
structure Flags.OfProduct (fits : Prop) (before after : Word) : Prop where
  carry : Flags.get after .carry = true ↔ ¬ fits
  overflow : Flags.get after .overflow = true ↔ ¬ fits
  others : Flags.SameBut [.carry, .overflow] before after

/-- The number of twice the width in the accumulator and the register that extends it. -/
def Registers.double (r : Registers) (signed : Bool) (width : Width) : Int :=
  match signed with
  | false => Quotient.dividend r width
  | true => Quotient.signedDividend r width

namespace Encoding

/-- The field that stands for a product. -/
def productField (signed : Bool) : BitVec 3 := if signed then 5 else 4

/-- The opcode of a product with a number, which may be a short one. -/
def multiplyOpcode (short : Bool) : Byte := if short then 0x6b else 0x69

end Encoding

namespace Machine

open Arithmetic Encoding Instruction

/-- The number behind the operands by which an instruction multiplies; a short one is widened with
its sign. -/
def factor (m : Machine) (short : Bool) : Word :=
  if short then (m.tailAt m.numberPlace).signExtend 16 else m.numberAt .word m.numberPlace

/-- The accumulator times the operand. -/
def product (m : Machine) (signed : Bool) (width : Width) : Int :=
  number signed (m.registers.get width accumulator) * number signed (m.formValue width)

/-- The operand times the number behind it. -/
def numberProduct (m : Machine) (short : Bool) : Int :=
  (m.formValue .word).toInt * (m.factor short).toInt

/-- The step leaves the whole product of the accumulator and the operand. -/
structure Multiplies (m : Machine) (signed : Bool) (width : Width) : Prop where
  continued : m.step.1 = .continued
  whole : m.step.2.registers.double signed width = m.product signed width
  flags : Flags.OfProduct (IsNumber signed width.bits (m.product signed width)) m.registers.flags
    m.step.2.registers.flags

/-- The step leaves the lower half of the product of the operand and a number. -/
structure MultipliesByNumber (m : Machine) (short : Bool) : Prop where
  continued : m.step.1 = .continued
  lower : m.step.2.registers.get .word (field (m.tailAt 0))
    = BitVec.ofInt 16 (m.numberProduct short)
  flags : Flags.OfProduct (IsNumber true 16 (m.numberProduct short)) m.registers.flags
    m.step.2.registers.flags

/-- The step divides by the operand, or stops for want of a quotient with nothing done. -/
structure DividesExactly (m : Machine) (signed : Bool) (width : Width)
    (dividend divisor : Int) : Prop where
  stopped_iff : m.step.1 = .stopped (.gaveUp m.registers.codePointer .divideError)
    ↔ ¬ QuotientFits signed width.bits dividend divisor
  untouched : ¬ QuotientFits signed width.bits dividend divisor →
    m.step.2 = { m with registers := { m.registers with ip := m.step.2.registers.ip } }
  continued : QuotientFits signed width.bits dividend divisor → m.step.1 = .continued
  divides : QuotientFits signed width.bits dividend divisor →
    Divides dividend divisor (number signed (m.step.2.registers.get width accumulator))
      (number signed (m.step.2.registers.get width (extension width)))
  flags : m.step.2.registers.flags = m.registers.flags

end Machine

end CmStream
