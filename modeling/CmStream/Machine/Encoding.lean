import CmStream.Machine.Registers

/-!
# How instructions are encoded

How the bytes of an instruction are laid out: modifiers, the opcode, a byte that names operands, its
displacement, and a number. The tables go by the bytes themselves, as a manual of the instruction
set prints them, and not by what the machine makes of them.
-/

namespace CmStream

namespace Encoding

/-- The most modifiers that an instruction may have. -/
def maxModifiers : Nat := 15

/-- Segment overrides, the lock and the repeat modifiers. -/
def isModifier (byte : Byte) : Bool :=
  [0x26, 0x2e, 0x36, 0x3e, 0xf0, 0xf2, 0xf3].contains byte

/-- Is there a byte behind the opcode that names operands? -/
def namesOperands (opcode : Byte) : Bool :=
  let n := opcode.toNat
  (n < 0x40 && n % 8 < 4) || [0x62, 0x69, 0x6b].contains n || (0x80 ≤ n && n < 0x90)
    || [0xc0, 0xc1, 0xc4, 0xc5, 0xc6, 0xc7].contains n || (0xd0 ≤ n && n < 0xd4)
    || (0xd8 ≤ n && n < 0xe0) || [0xf6, 0xf7, 0xfe, 0xff].contains n

/-- The field of a byte that names operands: the three bits in the middle. -/
def field (operands : Byte) : BitVec 3 := operands.extractLsb' 3 3

/-- The number of bytes of the displacement, by the two upper bits. Without a base there is a
displacement of a word. -/
def displacementLength (operands : Byte) : Nat :=
  match operands.toNat / 64 with
  | 0 => if operands.toNat % 8 = 6 then 2 else 0
  | 1 => 1
  | 2 => 2
  | _ => 0

/-- The number of bytes at the end of an instruction: data, a distance, an offset or a pointer. -/
def numberLength (opcode : Byte) (field : BitVec 3) : Nat :=
  let n := opcode.toNat
  if n < 0x40 then
    if n % 8 = 4 then 1 else if n % 8 = 5 then 2 else 0
  else if (0x70 ≤ n && n < 0x80) || (0xb0 ≤ n && n < 0xb8) || (0xe0 ≤ n && n < 0xe8)
      || [0x6a, 0x6b, 0x80, 0x82, 0x83, 0xa8, 0xc0, 0xc1, 0xc6, 0xcd, 0xd4, 0xd5, 0xeb].contains n
    then 1
  else if (0xa0 ≤ n && n < 0xa4) || (0xb8 ≤ n && n < 0xc0)
      || [0x68, 0x69, 0x81, 0xa9, 0xc2, 0xc7, 0xca, 0xe8, 0xe9].contains n then 2
  else if n = 0xc8 then 3
  else if n = 0x9a || n = 0xea then 4
  -- Of the operations on one operand, only a test has a number.
  else if n = 0xf6 then (if field.toNat < 2 then 1 else 0)
  else if n = 0xf7 then (if field.toNat < 2 then 2 else 0)
  else 0

/-! ## Transfers of control -/

/-- Jumps and calls over a distance that the instruction gives, and loops. -/
def isRelative (opcode : Byte) : Bool :=
  let n := opcode.toNat
  (0x70 ≤ n && n < 0x80) || (0xe0 ≤ n && n < 0xe4) || [0xe8, 0xe9, 0xeb].contains n

/-- Calls to another segment. -/
def isFarCall (opcode : Byte) (field : BitVec 3) : Bool :=
  opcode == 0x9a || (opcode == 0xff && field == 3)

/-- Calls within the segment. -/
def isNearCall (opcode : Byte) (field : BitVec 3) : Bool :=
  opcode == 0xe8 || (opcode == 0xff && field == 2)

/-- Jumps, calls, returns and loops. -/
def isTransfer (opcode : Byte) (field : BitVec 3) : Bool :=
  isRelative opcode || isNearCall opcode field || isFarCall opcode field
    || [0xc2, 0xc3, 0xca, 0xcb, 0xcf, 0xea].contains opcode
    || (opcode == 0xff && (field == 4 || field == 5))

/-- Is the distance gone? Conditional jumps come in pairs of a condition and its opposite; a loop
counts down before it looks. -/
def goes (opcode : Byte) (r : Registers) : Bool :=
  let less := r.flag .sign != r.flag .overflow
  match opcode.toNat with
  | 0x70 => r.flag .overflow
  | 0x71 => !r.flag .overflow
  | 0x72 => r.flag .carry
  | 0x73 => !r.flag .carry
  | 0x74 => r.flag .zero
  | 0x75 => !r.flag .zero
  | 0x76 => r.flag .carry || r.flag .zero
  | 0x77 => !(r.flag .carry || r.flag .zero)
  | 0x78 => r.flag .sign
  | 0x79 => !r.flag .sign
  | 0x7a => r.flag .parity
  | 0x7b => !r.flag .parity
  | 0x7c => less
  | 0x7d => !less
  | 0x7e => r.flag .zero || less
  | 0x7f => !(r.flag .zero || less)
  | 0xe0 => r.cx != 1 && !r.flag .zero
  | 0xe1 => r.cx != 1 && r.flag .zero
  | 0xe2 => r.cx != 1
  | 0xe3 => r.cx == 0
  | _ => true

/-- The distance that the last bytes of an instruction give: a signed byte, or a word. -/
def distance : List Byte → Word
  | [byte] => byte.signExtend 16
  | [first, second] => Word.ofBytes first second
  | _ => 0

/-! ## Heads -/

/-- The bytes of an instruction that decide how long it is. -/
structure Head where
  modifiers : List Byte
  opcode : Byte
  operands : Option Byte
  few : modifiers.length ≤ maxModifiers
  modify : ∀ byte ∈ modifiers, isModifier byte = true
  proper : isModifier opcode = false
  named : operands.isSome = namesOperands opcode

namespace Head

def bytes (head : Head) : List Byte := head.modifiers ++ head.opcode :: head.operands.toList

/-- The field of the byte that names operands, if there is one. -/
def field (head : Head) : BitVec 3 :=
  match head.operands with
  | some operands => Encoding.field operands
  | none => 0

def displacementLength (head : Head) : Nat :=
  match head.operands with
  | some operands => Encoding.displacementLength operands
  | none => 0

/-- The length of the whole instruction. -/
def length (head : Head) : Nat :=
  head.bytes.length + head.displacementLength + numberLength head.opcode head.field

end Head

end Encoding

end CmStream
