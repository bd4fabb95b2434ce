import CmStream.Machine.GivingUp
import CmStream.Machine.Synonyms

/-!
# Operations on two operands

The operations on two operands have their numbers and share their encodings: the operand byte names
both operands, and the opcode says which of them comes first and takes the result; or the first is
the accumulator, or what the operand byte names, and the second is a number in the instruction.
-/

namespace CmStream

namespace Arithmetic.Operation

/-- The number of an operation, in an opcode or in the field of the operand byte. -/
def number : Operation → BitVec 3
  | add => 0
  | or => 1
  | adc => 2
  | sbb => 3
  | and => 4
  | sub => 5
  | xor => 6
  | cmp => 7

end Arithmetic.Operation

/-- What a register or a place in memory holds. -/
def Operand.value (operand : Operand) (width : Width) (m : Machine) : BitVec width.bits :=
  match operand with
  | .register index => m.registers.get width index
  | .memory place => m.memory.seeData width place

namespace Machine

/-- The number that lies `i` bytes behind the opcode. -/
def numberAt (m : Machine) (width : Width) (i : Nat) : BitVec width.bits :=
  match width with
  | .byte => m.tailAt i
  | .word => Word.ofBytes (m.tailAt i) (m.tailAt (i + 1))

/-- Where the number of an instruction lies that has an operand byte as well. -/
def numberPlace (m : Machine) : Nat := 1 + Encoding.displacementLength (m.tailAt 0)

open Encoding

/-- The instruction in front of the machine combines two values by an operation; this is where the
result goes, if the operation keeps it. -/
inductive Combines (m : Machine) (operation : Arithmetic.Operation) :
    (width : Width) → BitVec width.bits → BitVec width.bits → Operand → Prop
  | toForm (width : Width)
      (begins : m.opcode? = some (arithmetic operation.number (wide 0x00 width))) :
      Combines m operation width (m.formValue width) (m.registers.get width (field (m.tailAt 0)))
        m.formOperand
  | toField (width : Width)
      (begins : m.opcode? = some (arithmetic operation.number (wide 0x02 width))) :
      Combines m operation width (m.registers.get width (field (m.tailAt 0))) (m.formValue width)
        (.register (field (m.tailAt 0)))
  | toAccumulator (width : Width)
      (begins : m.opcode? = some (arithmetic operation.number (wide 0x04 width))) :
      Combines m operation width (m.registers.get width 0) (m.numberAt width 0) (.register 0)
  | group (width : Width) (begins : m.opcode? = some (wide 0x80 width))
      (chooses : field (m.tailAt 0) = operation.number) :
      Combines m operation width (m.formValue width) (m.numberAt width m.numberPlace) m.formOperand
  /-- The same as the one before. -/
  | groupAgain (begins : m.opcode? = some 0x82)
      (chooses : field (m.tailAt 0) = operation.number) :
      Combines m operation .byte (m.formValue .byte) (m.numberAt .byte m.numberPlace) m.formOperand
  /-- A short number is widened with its sign. -/
  | short (begins : m.opcode? = some 0x83) (chooses : field (m.tailAt 0) = operation.number) :
      Combines m operation .word (m.formValue .word) ((m.tailAt m.numberPlace).signExtend 16)
        m.formOperand

end Machine

end CmStream
