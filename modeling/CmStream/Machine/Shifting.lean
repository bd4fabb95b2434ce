import CmStream.Machine.Combining
import Mathlib.Tactic.Ring

/-!
# Shifts and rotations by many places

What becomes of an operand that is shifted by a number of places, said at once and not place after
place. A rotation by way of the carry is a rotation of a ring that has the carry as its topmost bit.
-/

namespace CmStream

namespace Shift

variable {n : Nat}

/-- The state after some places, at least one, of an operand of at least two bits. -/
def total (shift : Shift) (value : BitVec n) (carry : Bool) (k : Nat) : State n :=
  match shift with
  | rol =>
    let result := value.rotateLeft (k % n)
    ⟨result, result.getLsbD 0, result.msb ^^ result.getLsbD 0⟩
  | ror =>
    let result := value.rotateRight (k % n)
    ⟨result, result.msb, result.msb ^^ result.getLsbD (n - 2)⟩
  | rcl =>
    let ring := (BitVec.cons carry value).rotateLeft (k % (n + 1))
    ⟨ring.setWidth n, ring.msb, (ring.setWidth n).msb ^^ ring.msb⟩
  | rcr =>
    let ring := (BitVec.cons carry value).rotateRight (k % (n + 1))
    ⟨ring.setWidth n, ring.msb, (ring.setWidth n).msb ^^ (ring.setWidth n).getLsbD (n - 2)⟩
  | shl =>
    let result := BitVec.ofNat n (value.toNat * 2 ^ k)
    let out := decide (k ≤ n) && value.getLsbD (n - k)
    ⟨result, out, result.msb ^^ out⟩
  | shr =>
    ⟨BitVec.ofNat n (value.toNat / 2 ^ k), value.getLsbD (k - 1),
      (BitVec.ofNat n (value.toNat / 2 ^ (k - 1))).msb⟩
  | sar =>
    -- The bit that goes out last, of a number that goes on with its sign without end.
    ⟨BitVec.ofInt n (value.toInt / 2 ^ k), decide (value.toInt / 2 ^ (k - 1) % 2 = 1), false⟩

end Shift

/-- The flags that describe a result. -/
structure Flags.Describes {n : Nat} (flags : Word) (value : BitVec n) : Prop where
  zero : Flags.get flags .zero = true ↔ value = 0
  sign : Flags.get flags .sign = true ↔ value.getLsbD (n - 1) = true
  /-- An even number of ones in the lowest byte. -/
  parity : Flags.get flags .parity = true ↔ (List.range 8).countP value.getLsbD % 2 = 0

namespace Encoding

/-- The fields that choose a shift; the one to the left has two. -/
def shiftFields : Shift → List (BitVec 3)
  | .rol => [0]
  | .ror => [1]
  | .rcl => [2]
  | .rcr => [3]
  | .shl => [4, 6]
  | .shr => [5]
  | .sar => [7]

end Encoding

namespace Machine

open Encoding

/-- The instruction in front of the machine shifts its operand by a count. -/
inductive Shifts (m : Machine) (shift : Shift) (width : Width) : Byte → Prop
  | immediate (begins : m.opcode? = some (wide 0xc0 width))
      (chooses : field (m.tailAt 0) ∈ shiftFields shift) :
      Shifts m shift width (m.tailAt m.numberPlace)
  | one (begins : m.opcode? = some (wide 0xd0 width))
      (chooses : field (m.tailAt 0) ∈ shiftFields shift) : Shifts m shift width 1
  | counter (begins : m.opcode? = some (wide 0xd2 width))
      (chooses : field (m.tailAt 0) ∈ shiftFields shift) :
      Shifts m shift width (m.registers.byte .cl)

/-- The step leaves an operand and flags as they are after the last place; only some flags have
changed. -/
structure ShiftsTo (m : Machine) (width : Width) (last : Shift.State width.bits)
    (changed : List Flag) : Prop where
  value : m.formOperand.value width m.step.2 = last.value
  carry : m.step.2.registers.flag .carry = last.carry
  overflow : m.step.2.registers.flag .overflow = last.overflow
  others : Flags.SameBut changed m.registers.flags m.step.2.registers.flags

end Machine

end CmStream
