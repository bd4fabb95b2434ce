import CmStream.Machine.Combining
import CmStream.Machine.Repeating

/-!
# Where instructions store

Every instruction has one destination in memory at most. The table goes by the bytes of the
instruction; the places that it comes to depend on the registers at the beginning of the step, and
for repeated string operations on how many elements the step has got to.
-/

namespace CmStream

namespace Encoding

/-- Where an instruction stores. -/
inductive Target where
  /-- The operand in memory that the operand byte names. -/
  | operand (width : Width)
  /-- The place that a number in the instruction gives. -/
  | direct (width : Width)
  /-- The destination of a string operation. -/
  | elements (width : Width)
  /-- As many words on the stack. -/
  | stack (words : Nat)
  /-- The words of a new frame, on the stack as well. -/
  | frame
  deriving DecidableEq, Repr

/-- The width of most operations, which come in pairs for bytes and for words. -/
def pairedWidth (opcode : Byte) : Width := if opcode.toNat % 2 = 0 then .byte else .word

/-- Does the opcode, with the field of the operand byte, write to the operand that the operand byte
names? Comparisons, tests, products and quotients do not. -/
def writesOperand (opcode : Byte) (field : BitVec 3) : Bool :=
  let n := opcode.toNat
  (n < 0x38 && n % 8 < 2)
    || ((0x80 ≤ n && n < 0x84) && field != 7)
    || [0x86, 0x87, 0x88, 0x89, 0x8c, 0x8f, 0xc0, 0xc1, 0xc6, 0xc7].contains n
    || (0xd0 ≤ n && n < 0xd4)
    || ([0xf6, 0xf7].contains n && (field == 2 || field == 3))
    || ([0xfe, 0xff].contains n && (field == 0 || field == 1))

/-- A segment register is a word, though its opcode is that of a byte. -/
def operandWidth (opcode : Byte) : Width := if opcode = 0x8c then .word else pairedWidth opcode

/-- How many words an instruction pushes; the number of those of a new frame is in the instruction.
-/
def pushedWords (opcode : Byte) (field : BitVec 3) : Nat :=
  let n := opcode.toNat
  if n = 0x60 then 8
  else if isFarCall opcode field then 2
  else if isNearCall opcode field || (0x50 ≤ n && n < 0x58)
      || [0x06, 0x0e, 0x16, 0x1e, 0x68, 0x6a, 0x9c].contains n || (n = 0xff && field == 6) then 1
  else 0

/-- Where the instruction stores with an opcode, the field of the operand byte, and a register or
a place in memory named by that byte. -/
def target? (opcode : Byte) (field : BitVec 3) (register : Bool) : Option Target :=
  if writesOperand opcode field then
    if register then none else some (.operand (operandWidth opcode))
  else if opcode = 0xa2 ∨ opcode = 0xa3 then some (.direct (pairedWidth opcode))
  else if [0xa4, 0xa5, 0xaa, 0xab].contains opcode then some (.elements (pairedWidth opcode))
  else if opcode = 0xc8 then some .frame
  -- A far call by way of a register is undefined.
  else if pushedWords opcode field = 0 ∨ (opcode = 0xff ∧ field = 3 ∧ register) then none
  else some (.stack (pushedWords opcode field))

/-- Is the offset computed with the base pointer? -/
def usesBasePointer (operands : Byte) : Bool :=
  let form := operands.toNat % 8
  form = 2 || form = 3 || (form = 6 && 0x40 ≤ operands.toNat)

end Encoding

/-- The place is one of as many words just below the top of the stack. -/
def Registers.Below (r : Registers) (words : Nat) (place : FarPointer) : Prop :=
  ∃ i, i < 2 * words ∧ place = ⟨r.ss, r.sp - BitVec.ofNat 16 (i + 1)⟩

namespace Machine

open Encoding

/-- The segment of the operand in memory: an override, or else that of the stack if the offset is
computed with the base pointer, or the data segment. -/
def operandSegment (m : Machine) : Word :=
  (override? m.modifiers m.registers).getD
    (if usesBasePointer (m.tailAt 0) then m.registers.ss else m.registers.ds)

/-- The place that a number behind the opcode gives. -/
def directPlace (m : Machine) : FarPointer :=
  ⟨(override? m.modifiers m.registers).getD m.registers.ds, m.numberAt .word 0⟩

/-- The elements that a step of a string operation gets to: one without a repetition, and otherwise
those that it handles, as the counter tells, and the one in which it is refused an access. -/
inductive GetsToElement (m : Machine) : Nat → Prop
  | once (single : repetition? m.modifiers = none) : GetsToElement m 0
  | handled {i : Nat} {repetition : Repetition}
      (repeated : repetition? m.modifiers = some repetition)
      (counted : m.step.2.registers.cx.toNat + i < m.registers.cx.toNat) : GetsToElement m i
  | refused {i : Nat} {repetition : Repetition} {place : FarPointer} {fault : Fault}
      (repeated : repetition? m.modifiers = some repetition)
      (counted : m.step.2.registers.cx.toNat + i = m.registers.cx.toNat)
      (stopped : m.step.1 = .stopped (.gaveUp place (.fault fault)))
      (data : fault.access ≠ .execute) : GetsToElement m i

/-- The place is one of those that a target comes to. -/
def Targets (m : Machine) (place : FarPointer) : Target → Prop
  | .operand width =>
    place ∈ (FarPointer.mk m.operandSegment m.formPlace.offset).following width.size.toNat
  | .direct width => place ∈ m.directPlace.following width.size.toNat
  | .elements width => ∃ i, m.GetsToElement i
      ∧ place ∈ (m.destinationOf width i).following width.size.toNat
  | .stack words => m.registers.Below words place
  | .frame => m.registers.Below (1 + (m.tailAt 2).toNat % 32) place

/-- The place is one that the instruction in front of the machine has as its destination. -/
def StoresTo (m : Machine) (place : FarPointer) : Prop :=
  ∃ opcode target, m.opcode? = some opcode
    ∧ target? opcode (field (m.tailAt 0)) (namesRegister (m.tailAt 0)) = some target
    ∧ m.Targets place target

end Machine

end CmStream
