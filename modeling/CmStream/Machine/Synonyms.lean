import CmStream.Machine.Encoding

/-!
# Encodings of one and the same operation

Many operations have more than one encoding: a short one with a register in the opcode or with the
accumulator as a matter of course, and a long one that names its operands. This is the list of such
pairs. The count of a shift is the only thing about a machine that matters to whether two encodings
are a pair.
-/

namespace CmStream

namespace Encoding

/-- The byte that names operands, put together from its fields. -/
def operandByte (mode : BitVec 2) (field form : BitVec 3) : Byte := mode ++ field ++ form

/-- An opcode with a number of three bits at its lower end. -/
def numbered (first : Byte) (index : BitVec 3) : Byte := first + index.setWidth 8

/-- The opcode of an operation on bytes or of the same on words, which comes next. -/
def wide (first : Byte) (width : Width) : Byte :=
  match width with
  | .byte => first
  | .word => first + 1

/-- The opcodes of the operations with two operands come in groups of eight. -/
def arithmetic (operation : BitVec 3) (form : Byte) : Byte := operation.setWidth 8 * 8 + form

/-- The bytes of a number in an instruction. -/
def number (width : Width) (value : BitVec width.bits) : List Byte :=
  match width, value with
  | .byte, value => [value]
  | .word, value => Word.toBytes value

/-- Is this a byte that names operands, with all of its displacement? -/
def isOperands : List Byte → Bool
  | [] => false
  | operands :: displacement => displacement.length == displacementLength operands

/-- Two encodings of one operation, for a machine with the given registers, and whether the
operation transfers control. -/
inductive Synonym (r : Registers) : (transfers : Bool) → List Byte → List Byte → Prop
  | increment (index : BitVec 3) :
      Synonym r false [numbered 0x40 index] [0xff, operandByte 3 0 index]
  | decrement (index : BitVec 3) :
      Synonym r false [numbered 0x48 index] [0xff, operandByte 3 1 index]
  | push (index : BitVec 3) :
      Synonym r false [numbered 0x50 index] [0xff, operandByte 3 6 index]
  | pop (index field : BitVec 3) :
      Synonym r false [numbered 0x58 index] [0x8f, operandByte 3 field index]
  /-- The accumulator may stand on either side. -/
  | exchange (index : BitVec 3) (other : index ≠ 0) :
      Synonym r false [numbered 0x90 index] [0x87, operandByte 3 0 index]
  | exchange' (index : BitVec 3) (other : index ≠ 0) :
      Synonym r false [numbered 0x90 index] [0x87, operandByte 3 index 0]
  | moveByte (index field : BitVec 3) (value : Byte) :
      Synonym r false [numbered 0xb0 index, value] [0xc6, operandByte 3 field index, value]
  | moveWord (index field : BitVec 3) (low high : Byte) :
      Synonym r false [numbered 0xb8 index, low, high]
        [0xc7, operandByte 3 field index, low, high]
  | accumulator (operation : BitVec 3) (width : Width) (value : BitVec width.bits) :
      Synonym r false (arithmetic operation (wide 0x04 width) :: number width value)
        (wide 0x80 width :: operandByte 3 operation 0 :: number width value)
  | test (width : Width) (value : BitVec width.bits) :
      Synonym r false (wide 0xa8 width :: number width value)
        (wide 0xf6 width :: operandByte 3 0 0 :: number width value)
  | group (operands : List Byte) (complete : isOperands operands = true) (value : Byte) :
      Synonym r false (0x82 :: operands ++ [value]) (0x80 :: operands ++ [value])
  /-- A short number is widened with its sign. -/
  | short (operands : List Byte) (complete : isOperands operands = true) (value : Byte) :
      Synonym r false (0x83 :: operands ++ [value])
        (0x81 :: operands ++ Word.toBytes (value.signExtend 16))
  | pushShort (value : Byte) :
      Synonym r false [0x6a, value] (0x68 :: Word.toBytes (value.signExtend 16))
  | multiplyShort (operands : List Byte) (complete : isOperands operands = true) (value : Byte) :
      Synonym r false (0x6b :: operands ++ [value])
        (0x69 :: operands ++ Word.toBytes (value.signExtend 16))
  /-- Of two registers, either may be named by the field. -/
  | registers (operation : BitVec 3) (width : Width) (target source : BitVec 3) :
      Synonym r false [arithmetic operation (wide 0x00 width), operandByte 3 source target]
        [arithmetic operation (wide 0x02 width), operandByte 3 target source]
  | move (width : Width) (target source : BitVec 3) :
      Synonym r false [wide 0x88 width, operandByte 3 source target]
        [wide 0x8a width, operandByte 3 target source]
  | loadDirect (width : Width) (low high : Byte) :
      Synonym r false [wide 0xa0 width, low, high] [wide 0x8a width, operandByte 0 0 6, low, high]
  | storeDirect (width : Width) (low high : Byte) :
      Synonym r false [wide 0xa2 width, low, high] [wide 0x88 width, operandByte 0 0 6, low, high]
  | shiftOne (width : Width) (operands : List Byte) (complete : isOperands operands = true) :
      Synonym r false (wide 0xd0 width :: operands) (wide 0xc0 width :: operands ++ [1])
  | shiftCounter (width : Width) (operands : List Byte) (complete : isOperands operands = true) :
      Synonym r false (wide 0xd2 width :: operands)
        (wide 0xc0 width :: operands ++ [r.byte .cl])
  | returnNear : Synonym r true [0xc3] [0xc2, 0, 0]
  | returnFar : Synonym r true [0xcb] [0xca, 0, 0]
  /-- The longer jump begins one byte further on. -/
  | jump (value : Byte) :
      Synonym r true [0xeb, value] (0xe9 :: Word.toBytes (value.signExtend 16 - 1))

end Encoding

end CmStream
