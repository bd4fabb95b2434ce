import CmStream.Machine.Encoding
import CmStream.Machine.Step

/-!
# When an instruction gives up

On a memory that refuses nothing, the bytes of an instruction say whether it gives up, and for which
cause; the registers matter to an interrupt on overflow, and the operand to a division. As in
`Encoding`, the tables go by the bytes themselves.
-/

namespace CmStream

namespace PagedMemory

/-- Every page is mapped and grants every access. -/
def Open (m : PagedMemory) : Prop :=
  ∀ index, index < pageCount →
    ∃ page, m.page? index = some page ∧ page.permissions = Permissions.all

/-- The byte that an access finds at an address; zero if the access is refused. -/
def see (m : PagedMemory) (access : Access) (address : Nat) : Byte :=
  match m.read access address with
  | .ok byte => byte
  | .error _ => 0

/-- The data that can be read at a place. -/
def seeData (m : PagedMemory) (width : Width) (place : FarPointer) : BitVec width.bits :=
  match width with
  | .byte => m.see .read place.linear
  | .word => Word.ofBytes (m.see .read place.linear) (m.see .read (place.advance 1).linear)

end PagedMemory

namespace Encoding

/-- The segment register that a modifier puts in place of the usual one. -/
def segment? (modifier : Byte) : Option SegmentRegister :=
  match modifier.toNat with
  | 0x26 => some .es
  | 0x2e => some .cs
  | 0x36 => some .ss
  | 0x3e => some .ds
  | _ => none

/-- What the last segment override among some modifiers comes to. -/
def override? (modifiers : List Byte) (r : Registers) : Option Word :=
  (modifiers.filterMap segment?).getLast?.map r.segment

/-- Does the byte behind the opcode name a register and no place in memory? -/
def namesRegister (operands : Byte) : Bool := 0xc0 ≤ operands.toNat

/-- Is there no such instruction? Some opcodes have none at all, some only with certain fields, and
some only with a place in memory. -/
def isUndefined (opcode operands : Byte) : Bool :=
  [0x0f, 0x63, 0xf1].contains opcode
    || (opcode == 0xfe && 2 ≤ (field operands).toNat)
    || (opcode == 0xff && field operands == 7)
    || (namesRegister operands && ([0x8d, 0xc4, 0xc5].contains opcode
      || (opcode == 0xff && (field operands == 3 || field operands == 5))))

/-- Does the opcode need equipment that the machine lacks? -/
def isUnsupported (opcode : Byte) : Bool :=
  let n := opcode.toNat
  n = 0x62 || (0x64 ≤ n && n < 0x68) || (0x6c ≤ n && n < 0x70) || (0xd8 ≤ n && n < 0xe0)
    || (0xe4 ≤ n && n < 0xe8) || (0xec ≤ n && n < 0xf0)

/-- The opcode of the operations on one operand, divisions among them. -/
def unaryOpcode : Width → Byte
  | .byte => 0xf6
  | .word => 0xf7

/-- The field that stands for a division. -/
def divisionField (signed : Bool) : BitVec 3 := if signed then 7 else 6

end Encoding

namespace Quotient

/-- The dividend of a division by a divisor of the given width. -/
def dividend (r : Registers) : Width → Nat
  | .byte => r.ax.toNat
  | .word => r.dx.toNat * 0x10000 + r.ax.toNat

/-- The dividend as a signed number. -/
def signedDividend (r : Registers) : Width → Int
  | .byte => r.ax.toInt
  | .word => r.dx.toInt * 0x10000 + r.ax.toNat

/-- The number of values of an operand. -/
def valueCount : Width → Nat
  | .byte => 0x100
  | .word => 0x10000

/-- Is the quotient, truncated toward zero, a number of the given width? -/
def Fits (r : Registers) (width : Width) (divisor : BitVec width.bits) : (signed : Bool) → Prop
  | false => dividend r width / divisor.toNat < valueCount width
  | true =>
    let quotient := (signedDividend r width).tdiv divisor.toInt
    2 * quotient < valueCount width ∧ -valueCount width ≤ 2 * quotient

instance (r : Registers) (width : Width) (divisor : BitVec width.bits) (signed : Bool) :
    Decidable (Fits r width divisor signed) :=
  match signed with
  | false => inferInstanceAs (Decidable (_ < _))
  | true => inferInstanceAs (Decidable (_ ∧ _))

end Quotient

namespace Machine

/-- The byte that lies `i` bytes behind the instruction pointer. -/
def codeAt (m : Machine) (i : Nat) : Byte :=
  m.memory.see .execute (m.registers.codePointer.advance (BitVec.ofNat 16 i)).linear

/-- The modifiers in front of the opcode; of too many, as many as it takes to notice. -/
def modifiers (m : Machine) : List Byte :=
  ((List.range (Encoding.maxModifiers + 1)).map m.codeAt).takeWhile Encoding.isModifier

/-- The opcode, unless there are too many modifiers in front of it. -/
def opcode? (m : Machine) : Option Byte :=
  if m.modifiers.length ≤ Encoding.maxModifiers then some (m.codeAt m.modifiers.length) else none

/-- The bytes behind the opcode. -/
def tailAt (m : Machine) (i : Nat) : Byte := m.codeAt (m.modifiers.length + 1 + i)

/-- The place in memory that the bytes behind the opcode name. -/
def formPlace (m : Machine) : FarPointer :=
  let named := OperandByte.ofByte (m.tailAt 0)
  let displacement := Encoding.distance
    ((List.range (Encoding.displacementLength (m.tailAt 0))).map fun i => m.tailAt (i + 1))
  let (base, segment) := named.base m.registers
  ⟨(Encoding.override? m.modifiers m.registers).getD (m.registers.segment segment),
    base + displacement⟩

/-- The register or the place in memory that the bytes behind the opcode name. -/
def formOperand (m : Machine) : Operand :=
  if Encoding.namesRegister (m.tailAt 0) then .register (OperandByte.ofByte (m.tailAt 0)).form
  else .memory m.formPlace

/-- The value of the register or of the place in memory that the bytes behind the opcode name. -/
def formValue (m : Machine) (width : Width) : BitVec width.bits :=
  let named := OperandByte.ofByte (m.tailAt 0)
  if Encoding.namesRegister (m.tailAt 0) then m.registers.get width named.form
  else m.memory.seeData width m.formPlace

/-- The operand is the divisor of a division that has no result. -/
def FailsToDivide (m : Machine) (width : Width) : Prop :=
  ∃ signed, Encoding.field (m.tailAt 0) = Encoding.divisionField signed
    ∧ (m.formValue width = 0 ∨ ¬ Quotient.Fits m.registers width (m.formValue width) signed)

instance (m : Machine) (width : Width) : Decidable (m.FailsToDivide width) :=
  inferInstanceAs (Decidable (Exists _))

/-- The instruction in front of the machine gives up for a cause, whatever its memory grants. -/
inductive GivesUp (m : Machine) : Cause → Prop
  | modifiers (many : m.modifiers.length = Encoding.maxModifiers + 1) :
      GivesUp m (.undefinedOpcode (m.codeAt Encoding.maxModifiers))
  | undefined {opcode : Byte} (begins : m.opcode? = some opcode)
      (undefined : Encoding.isUndefined opcode (m.tailAt 0) = true) :
      GivesUp m (.undefinedOpcode opcode)
  | unsupported {opcode : Byte} (begins : m.opcode? = some opcode)
      (unsupported : Encoding.isUnsupported opcode = true) : GivesUp m (.unsupportedOpcode opcode)
  | breakpoint (begins : m.opcode? = some 0xcc) : GivesUp m (.interrupt 3)
  | interrupt (begins : m.opcode? = some 0xcd) : GivesUp m (.interrupt (m.tailAt 0))
  | overflow (begins : m.opcode? = some 0xce) (overflows : m.registers.flag .overflow = true) :
      GivesUp m (.interrupt 4)
  | splitDigits (begins : m.opcode? = some 0xd4) (zero : m.tailAt 0 = 0) : GivesUp m .divideError
  | divide {width : Width} (begins : m.opcode? = some (Encoding.unaryOpcode width))
      (fails : m.FailsToDivide width) : GivesUp m .divideError

end Machine

end CmStream
