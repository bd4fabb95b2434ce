import CmStream.Machine.Microprogram

/-!
# Operands

Most instructions name their operands in a byte behind the opcode: two bits of mode, a register
or a choice among a group of instructions, and either a second register or a way to reach
memory. An offset that is computed with the base pointer counts from the stack segment, any
other from the data segment, unless the instruction overrides the segment.
-/

namespace CmStream

/-- The byte that names operands, in its three fields. -/
structure OperandByte where
  mode : BitVec 2
  field : BitVec 3
  form : BitVec 3
  deriving DecidableEq, Repr

namespace OperandByte

def ofByte (b : Byte) : OperandByte := ⟨b.extractLsb' 6 2, b.extractLsb' 3 3, b.extractLsb' 0 3⟩

/-- Does the form name a register and not memory? -/
def namesRegister (b : OperandByte) : Bool := b.mode == 3

/-- Is the offset a number in the instruction and nothing else? -/
def isDirect (b : OperandByte) : Bool := b.mode == 0 && b.form == 6

/-- The sum of registers that a form of reaching memory begins with, and the segment register
from which the offset counts. -/
def base (b : OperandByte) (r : Registers) : Word × SegmentRegister :=
  if b.isDirect then (0, .ds)
  else select [(r.bx + r.si, .ds), (r.bx + r.di, .ds), (r.bp + r.si, .ss), (r.bp + r.di, .ss),
    (r.si, .ds), (r.di, .ds), (r.bp, .ss), (r.bx, .ds)] rfl b.form

/-- The number in the instruction that is added to the base. -/
def fetchDisplacement (b : OperandByte) : Microprogram Word :=
  if b.mode == 2 || b.isDirect then Microprogram.fetchWord
  else if b.mode == 1 then Microprogram.fetchSigned
  else return 0

end OperandByte

inductive Operand where
  | register (index : RegisterIndex)
  | memory (place : FarPointer)
  deriving DecidableEq, Repr

namespace Operand

def load (operand : Operand) (width : Width) : Microprogram (BitVec width.bits) :=
  match operand with
  | register index => return (← Microprogram.registers).get width index
  | memory place => Microprogram.loadData width place

def store (operand : Operand) (width : Width) (value : BitVec width.bits) : Microprogram Unit :=
  match operand with
  | register index => Microprogram.modifyRegisters (·.set width index value)
  | memory place => Microprogram.storeData width place value

/-- The place in memory; an instruction that needs one is undefined with a register. -/
def place (operand : Operand) (opcode : Byte) : Microprogram FarPointer :=
  match operand with
  | register _ => Microprogram.giveUp (.undefinedOpcode opcode)
  | memory place => return place

end Operand

/-- The operands of an instruction: the field, and what the form stands for. -/
structure Operands where
  field : BitVec 3
  operand : Operand
  deriving DecidableEq, Repr

namespace Operands

/-- Fetches the operand byte and its displacement. -/
def fetch (override : Option Word) : Microprogram Operands := do
  let named := OperandByte.ofByte (← Microprogram.fetchByte)
  if named.namesRegister then return ⟨named.field, .register named.form⟩
  let displacement ← named.fetchDisplacement
  let r ← Microprogram.registers
  let (base, segment) := named.base r
  return ⟨named.field, .memory ⟨override.getD (r.segment segment), base + displacement⟩⟩

end Operands

end CmStream
