import CmStream.Machine.Combining
import Mathlib.Data.Nat.Digits.Defs
import Mathlib.Logic.Relation

/-!
# Numbers of many limbs

Numbers that are too wide for an operand are added and subtracted limb by limb, the lowest limb
first. What one limb carries or borrows goes to the next by way of the carry flag. In between a
program does other things, and counts and jumps, by instructions that pass the carry on. Bytes of
packed decimal digits are limbs, too; each is corrected by a second instruction.
-/

namespace CmStream

namespace Limbs

/-- The number that some limbs stand for, the lowest of them first. -/
def unsigned {n : Nat} (limbs : List (BitVec n)) : Nat :=
  Nat.ofDigits (2 ^ n) (limbs.map BitVec.toNat)

/-- The number that some limbs stand for in two's complement. -/
def signed {n : Nat} (limbs : List (BitVec n)) : Int :=
  (BitVec.ofNat (n * limbs.length) (unsigned limbs)).toInt

end Limbs

namespace Decimal

/-- Are both halves of a byte decimal digits? -/
def IsPacked (b : Byte) : Prop := b.toNat % 16 ≤ 9 ∧ b.toNat / 16 ≤ 9

instance (b : Byte) : Decidable (IsPacked b) := inferInstanceAs (Decidable (_ ∧ _))

/-- The number that the two digits of a byte stand for. -/
def digits (b : Byte) : Nat := 10 * (b.toNat / 16) + b.toNat % 16

/-- The number that some bytes of packed digits stand for, the lowest of them first. -/
def packed (bytes : List Byte) : Nat := Nat.ofDigits 100 (bytes.map digits)

end Decimal

/-- One place of a sum or of a difference: the two operands and the result. -/
structure Limb (n : Nat) where
  first : BitVec n
  second : BitVec n
  result : BitVec n
  deriving DecidableEq, Repr

namespace Encoding

/-- Does the instruction pass the carry on? It adds or subtracts one, complements, moves or
exchanges data, puts them on the stack or takes them off, forms an address, handles a string without
a comparison, jumps in any case, or jumps by the counter. -/
def passesCarry (opcode : Byte) (field : BitVec 3) : Bool :=
  let n := opcode.toNat
  let i := field.toNat
  [0x06, 0x07, 0x0e, 0x16, 0x17, 0x1e, 0x1f].contains n || (0x40 ≤ n && n < 0x60)
    || [0x68, 0x6a].contains n || (0x86 ≤ n && n < 0x98) || (0xa0 ≤ n && n < 0xa6)
    || (0xaa ≤ n && n < 0xae) || (0xb0 ≤ n && n < 0xc0) || [0xc6, 0xc7].contains n
    || (0xe0 ≤ n && n < 0xe4) || (0xe9 ≤ n && n < 0xec) || ([0xf6, 0xf7].contains n && i = 2)
    || (n = 0xfe && i < 2) || (n = 0xff && (i < 2 || (4 ≤ i && i < 7)))

end Encoding

namespace Machine

/-- One step of an instruction that passes the carry on. -/
def PassesTo (m next : Machine) : Prop :=
  (∃ opcode, m.opcode? = some opcode
    ∧ Encoding.passesCarry opcode (Encoding.field (m.tailAt 0)) = true)
  ∧ m.step = (.continued, next)

/-- Any number of steps of instructions that pass the carry on. -/
def Passes : Machine → Machine → Prop := Relation.ReflTransGen PassesTo

/-- One limb after the other is handled. What lies between one limb and the next keeps to `gap`, and
what handles a limb keeps to `handles`. -/
inductive Chain {n : Nat} (gap : Machine → Machine → Prop)
    (handles : Machine → Limb n → Machine → Prop) : Machine → List (Limb n) → Machine → Prop
  | nil (m : Machine) : Chain gap handles m [] m
  | cons {m before after last : Machine} {limb : Limb n} {limbs : List (Limb n)}
      (reaches : gap m before) (handled : handles before limb after)
      (rest : Chain gap handles after limbs last) : Chain gap handles m (limb :: limbs) last

/-- One step combines the operands of a limb by an operation and leaves the result behind. -/
def Combined (operation : Arithmetic.Operation) (width : Width) (m : Machine)
    (limb : Limb width.bits) (next : Machine) : Prop :=
  ∃ destination, m.Combines operation width limb.first limb.second destination
    ∧ m.step = (.continued, next) ∧ destination.value width next = limb.result

/-- The carry flag is the same as before, whatever else has happened. -/
def KeepsCarry (m next : Machine) : Prop := next.registers.flag .carry = m.registers.flag .carry

instance (m next : Machine) : Decidable (m.KeepsCarry next) := inferInstanceAs (Decidable (_ = _))

/-- One step combines the bytes of a limb in the accumulator. The next one is by the instruction
with the given opcode, and leaves the result there. -/
def Adjusted (operation : Arithmetic.Operation) (opcode : Byte) (m : Machine) (limb : Limb 8)
    (next : Machine) : Prop :=
  m.Combines operation .byte limb.first limb.second (.register 0) ∧ m.step.1 = .continued
    ∧ m.step.2.opcode? = some opcode ∧ m.step.2.step = (.continued, next)
    ∧ next.registers.byte .al = limb.result

end Machine

end CmStream
