import CmStream.Machine.Decimal
import CmStream.Machine.Instruction
import CmStream.Machine.Operand
import CmStream.Machine.Product

/-!
# What each instruction does

Every instruction as a microprogram, from the byte behind its opcode on. The order of effects
matters where one of them can be refused: what an instruction has done before stays done.
Flags are settled before a result is stored; the stack pointer moves before a push stores, and
after a pop has loaded.
-/

namespace CmStream

/-- What the modifiers in front of an instruction amount to. -/
structure Modifiers where
  /-- The value of the segment register that replaces the usual one. -/
  override : Option Word
  repetition : Option Repetition
  deriving DecidableEq, Repr

namespace Modifiers

def none : Modifiers := ⟨Option.none, Option.none⟩

/-- The last override and the last repetition count. -/
def add (modifiers : Modifiers) (modifier : Modifier) (r : Registers) : Modifiers :=
  match modifier with
  | .segment name => { modifiers with override := some (r.segment name) }
  | .lock => modifiers
  | .repetition repetition => { modifiers with repetition := some repetition }

end Modifiers

/-- The operations on one operand that the field of an instruction chooses. -/
inductive UnaryOperation where
  | test | not | neg | mul | imul | div | idiv
  deriving DecidableEq, Repr

namespace UnaryOperation

def all : List UnaryOperation := [test, test, not, neg, mul, imul, div, idiv]

def ofIndex (index : BitVec 3) : UnaryOperation := select all rfl index

end UnaryOperation

/-- The operations on a word that the field of an instruction chooses. -/
inductive WordOperation where
  | increment | decrement | call | callFar | jump | jumpFar | push | undefined
  deriving DecidableEq, Repr

namespace WordOperation

def all : List WordOperation :=
  [increment, decrement, call, callFar, jump, jumpFar, push, undefined]

def ofIndex (index : BitVec 3) : WordOperation := select all rfl index

end WordOperation

namespace Instruction

open Microprogram

/-! ## Parts -/

/-- A number in an instruction; a short one is a signed byte that is widened to a word. -/
def fetchNumber (width : Width) (short : Bool) : Microprogram (BitVec width.bits) :=
  match width, short with
  | .byte, _ => fetchByte
  | .word, false => fetchWord
  | .word, true => fetchSigned

def getRegister (width : Width) (index : RegisterIndex) : Microprogram (BitVec width.bits) :=
  return (← registers).get width index

def setRegister (width : Width) (index : RegisterIndex) (value : BitVec width.bits) :
    Microprogram Unit :=
  modifyRegisters (·.set width index value)

/-- The number of the accumulator, and of the lower half of a product. -/
def accumulator : RegisterIndex := 0

/-- The number of the register that holds the upper half of a product. -/
def extension : Width → RegisterIndex
  | .byte => 4
  | .word => 2

def jumpBy (distance : Word) : Microprogram Unit :=
  modifyRegisters fun r => { r with ip := r.ip + distance }

def jumpTo (offset : Word) : Microprogram Unit :=
  modifyRegisters fun r => { r with ip := offset }

def jumpFarTo (target : FarPointer) : Microprogram Unit :=
  modifyRegisters fun r => { r with cs := target.segment, ip := target.offset }

/-- Gives back the arguments that a caller has left on the stack. -/
def release (count : Word) : Microprogram Unit :=
  modifyRegisters fun r => { r with sp := r.sp + count }

/-- Keeps the place behind the instruction on the stack. -/
def pushReturn : Microprogram Unit := do
  push (← registers).ip

/-- Keeps the place behind the instruction on the stack with its segment, the segment first. -/
def pushFarReturn : Microprogram Unit := do
  push (← registers).cs
  push (← registers).ip

/-! ## Arithmetic -/

def performArithmetic (operation : Arithmetic.Operation) (direction : Direction) (width : Width)
    (override : Option Word) : Microprogram Unit := do
  match direction with
  | .toForm =>
    let operands ← Operands.fetch override
    let a ← operands.operand.load width
    let b ← getRegister width operands.field
    let value ← settle (operation.compute a b)
    if operation.keepsResult then operands.operand.store width value
  | .toField =>
    let operands ← Operands.fetch override
    let a ← getRegister width operands.field
    let b ← operands.operand.load width
    let value ← settle (operation.compute a b)
    if operation.keepsResult then setRegister width operands.field value
  | .toAccumulator =>
    let a ← getRegister width accumulator
    let b ← fetchNumber width false
    let value ← settle (operation.compute a b)
    if operation.keepsResult then setRegister width accumulator value

def performArithmeticGroup (width : Width) (short : Bool) (override : Option Word) :
    Microprogram Unit := do
  let operands ← Operands.fetch override
  let operation := Arithmetic.Operation.ofIndex operands.field
  let a ← operands.operand.load width
  let b ← fetchNumber width short
  let value ← settle (operation.compute a b)
  if operation.keepsResult then operands.operand.store width value

def performAdjust (adjustment : DecimalAdjustment) : Microprogram Unit := do
  let r ← registers
  match adjustment with
  | .packedSum =>
    let value ← settle (Decimal.adjustSum (r.byte .al))
    setRegister .byte accumulator value
  | .packedDifference =>
    let value ← settle (Decimal.adjustDifference (r.byte .al))
    setRegister .byte accumulator value
  | .unpackedSum =>
    let value ← settle (Decimal.adjustUnpackedSum r.ax)
    setRegister .word accumulator value
  | .unpackedDifference =>
    let value ← settle (Decimal.adjustUnpackedDifference r.ax)
    setRegister .word accumulator value

def performSplitDigits : Microprogram Unit := do
  let base ← fetchByte
  let r ← registers
  match Decimal.split? base (r.byte .al) r.flags with
  | some computed => setRegisters { r with ax := computed.value, flags := computed.flags }
  | none => giveUp .divideError

def performJoinDigits : Microprogram Unit := do
  let base ← fetchByte
  let r ← registers
  let value ← settle (Decimal.join base r.ax)
  setRegister .word accumulator value

def performMultiplyBy (short : Bool) (override : Option Word) : Microprogram Unit := do
  let operands ← Operands.fetch override
  let a ← operands.operand.load .word
  let b ← fetchNumber .word short
  let product := Product.signed a b
  setRegister .word operands.field product.lower
  modifyRegisters fun r => { r with flags := product.setFlags r.flags }

/-- Leaves both halves of a product where they belong. -/
def storeProduct (width : Width) (product : Product.Halves width.bits) : Microprogram Unit :=
  modifyRegisters fun r =>
    let r := (r.set width accumulator product.lower).set width (extension width) product.upper
    { r with flags := product.setFlags r.flags }

/-- Leaves quotient and remainder where they belong, or gives up if there are none. -/
def storeQuotient (width : Width) : Option (Quotient.Result width.bits) → Microprogram Unit
  | some result => modifyRegisters fun r =>
      (r.set width accumulator result.quotient).set width (extension width) result.remainder
  | none => giveUp .divideError

def performUnaryGroup (width : Width) (override : Option Word) : Microprogram Unit := do
  let operands ← Operands.fetch override
  let value ← operands.operand.load width
  let r ← registers
  let lower := r.get width accumulator
  let upper := r.get width (extension width)
  match UnaryOperation.ofIndex operands.field with
  | .test =>
    let mask ← fetchNumber width false
    discard (settle (Arithmetic.bitwise (value &&& mask)))
  | .not => operands.operand.store width (~~~value)
  | .neg =>
    let difference ← settle (Arithmetic.subtract 0 value false)
    operands.operand.store width difference
  | .mul => storeProduct width (Product.unsigned lower value)
  | .imul => storeProduct width (Product.signed lower value)
  | .div => storeQuotient width (Quotient.unsigned? upper lower value)
  | .idiv => storeQuotient width (Quotient.signed? upper lower value)

def performByteGroup (opcode : Byte) (override : Option Word) : Microprogram Unit := do
  let operands ← Operands.fetch override
  let value ← operands.operand.load .byte
  if operands.field = 0 then
    let sum ← settle (Arithmetic.increment value)
    operands.operand.store .byte sum
  else if operands.field = 1 then
    let difference ← settle (Arithmetic.decrement value)
    operands.operand.store .byte difference
  else giveUp (.undefinedOpcode opcode)

def performShiftGroup (width : Width) (source : CountSource) (override : Option Word) :
    Microprogram Unit := do
  let operands ← Operands.fetch override
  let count ← match source with
    | .one => pure 1
    | .counter => getRegister .byte 1
    | .immediate => fetchByte
  let value ← operands.operand.load width
  let shifted ← settle ((Shift.ofIndex operands.field).compute value count)
  operands.operand.store width shifted

/-! ## The stack -/

def performPushAll : Microprogram Unit := do
  let r ← registers
  WordRegister.all.forM fun name => push (r.word name)

/-- The stack pointer on the stack is passed over. -/
def performPopAll : Microprogram Unit :=
  WordRegister.all.reverse.forM fun name => do
    let value ← pop
    if name ≠ .sp then modifyRegisters (·.setWord name value)

/-- Copies the given number of frame pointers from the enclosing frame to the new one. -/
def copyFramePointers : Nat → Microprogram Unit
  | 0 => return ()
  | count + 1 => do
    modifyRegisters fun r => { r with bp := r.bp - 2 }
    let r ← registers
    let value ← loadWord ⟨r.ss, r.bp⟩
    push value
    copyFramePointers count

def performEnter : Microprogram Unit := do
  let size ← fetchWord
  let level := (← fetchByte).toNat % 32
  push (← registers).bp
  let frame := (← registers).sp
  if 0 < level then
    copyFramePointers (level - 1)
    push frame
  modifyRegisters fun r => { r with bp := frame, sp := r.sp - size }

def performLeave : Microprogram Unit := do
  modifyRegisters fun r => { r with sp := r.bp }
  let frame ← pop
  modifyRegisters fun r => { r with bp := frame }

/-! ## Transfer of control -/

def performJumpIf (condition : Condition) (negated : Bool) : Microprogram Unit := do
  let distance ← fetchSigned
  if condition.holds (← registers) != negated then jumpBy distance

def performLoop (condition : LoopCondition) : Microprogram Unit := do
  let distance ← fetchSigned
  modifyRegisters fun r => { r with cx := r.cx - 1 }
  let r ← registers
  if r.cx != 0 && condition.holds r then jumpBy distance

def performJumpIfCounterZero : Microprogram Unit := do
  let distance ← fetchSigned
  if (← registers).cx = 0 then jumpBy distance

def performCall : Microprogram Unit := do
  let distance ← fetchWord
  pushReturn
  jumpBy distance

def performCallFar : Microprogram Unit := do
  let target ← fetchPointer
  pushFarReturn
  jumpFarTo target

/-- The number of bytes that a return releases. -/
def fetchRelease (releases : Bool) : Microprogram Word :=
  if releases then fetchWord else return 0

def performReturn (releases : Bool) : Microprogram Unit := do
  let count ← fetchRelease releases
  jumpTo (← pop)
  release count

def performReturnFar (releases : Bool) : Microprogram Unit := do
  let count ← fetchRelease releases
  jumpTo (← pop)
  let segment ← pop
  modifyRegisters fun r => { r with cs := segment }
  release count

def performReturnFromInterrupt : Microprogram Unit := do
  performReturnFar false
  let flags ← pop
  modifyRegisters fun r => { r with flags := Flags.load flags }

def performWordGroup (opcode : Byte) (override : Option Word) : Microprogram Unit := do
  let operands ← Operands.fetch override
  match WordOperation.ofIndex operands.field with
  | .increment =>
    let value ← operands.operand.load .word
    let sum ← settle (Arithmetic.increment value)
    operands.operand.store .word sum
  | .decrement =>
    let value ← operands.operand.load .word
    let difference ← settle (Arithmetic.decrement value)
    operands.operand.store .word difference
  | .call =>
    let target ← operands.operand.load .word
    pushReturn
    jumpTo target
  | .callFar =>
    let target ← loadPointer (← operands.operand.place opcode)
    pushFarReturn
    jumpFarTo target
  | .jump => jumpTo (← operands.operand.load .word)
  | .jumpFar => jumpFarTo (← loadPointer (← operands.operand.place opcode))
  | .push => push (← operands.operand.load .word)
  | .undefined => giveUp (.undefinedOpcode opcode)

/-! ## Data -/

/-- A place in memory that is given by a number in the instruction. -/
def fetchPlace (override : Option Word) : Microprogram FarPointer := do
  let offset ← fetchWord
  let r ← registers
  return ⟨override.getD r.ds, offset⟩

def performExchange (width : Width) (override : Option Word) : Microprogram Unit := do
  let operands ← Operands.fetch override
  let a ← operands.operand.load width
  let b ← getRegister width operands.field
  operands.operand.store width b
  setRegister width operands.field a

def performLoadFarPointer (opcode : Byte) (segment : SegmentRegister) (override : Option Word) :
    Microprogram Unit := do
  let operands ← Operands.fetch override
  let target ← loadPointer (← operands.operand.place opcode)
  setRegister .word operands.field target.offset
  modifyRegisters (·.setSegment segment target.segment)

def performTranslate (override : Option Word) : Microprogram Unit := do
  let r ← registers
  let offset := r.bx + (r.byte .al).setWidth 16
  let value ← loadData .byte ⟨override.getD r.ds, offset⟩
  setRegister .byte accumulator value

/-! ## All instructions -/

/-- What an instruction does once its opcode has been fetched. -/
def perform (instruction : Instruction) (opcode : Byte) (modifiers : Modifiers) :
    Microprogram Unit := do
  let override := modifiers.override
  match instruction with
  | arithmetic operation direction width => performArithmetic operation direction width override
  | arithmeticGroup width short => performArithmeticGroup width short override
  | increment name =>
    let r ← registers
    let sum ← settle (Arithmetic.increment (r.word name))
    modifyRegisters (·.setWord name sum)
  | decrement name =>
    let r ← registers
    let difference ← settle (Arithmetic.decrement (r.word name))
    modifyRegisters (·.setWord name difference)
  | test width =>
    let operands ← Operands.fetch override
    let a ← operands.operand.load width
    let b ← getRegister width operands.field
    discard (settle (Arithmetic.bitwise (a &&& b)))
  | testAccumulator width =>
    let a ← getRegister width accumulator
    let b ← fetchNumber width false
    discard (settle (Arithmetic.bitwise (a &&& b)))
  | adjust adjustment => performAdjust adjustment
  | splitDigits => performSplitDigits
  | joinDigits => performJoinDigits
  | multiplyBy short => performMultiplyBy short override
  | unaryGroup width => performUnaryGroup width override
  | byteGroup => performByteGroup opcode override
  | wordGroup => performWordGroup opcode override
  | shiftGroup width source => performShiftGroup width source override
  | widenByte => modifyRegisters fun r => { r with ax := (r.byte .al).signExtend 16 }
  | widenWord => modifyRegisters fun r => { r with dx := if r.ax.msb then 0xffff else 0 }
  | moveToForm width =>
    let operands ← Operands.fetch override
    operands.operand.store width (← getRegister width operands.field)
  | moveToField width =>
    let operands ← Operands.fetch override
    setRegister width operands.field (← operands.operand.load width)
  | moveImmediate width =>
    let operands ← Operands.fetch override
    operands.operand.store width (← fetchNumber width false)
  | moveByte name =>
    let value ← fetchByte
    modifyRegisters (·.setByte name value)
  | moveWord name =>
    let value ← fetchWord
    modifyRegisters (·.setWord name value)
  | moveFromSegment =>
    let operands ← Operands.fetch override
    let r ← registers
    operands.operand.store .word (r.segment (.ofIndex operands.field))
  | moveToSegment =>
    let operands ← Operands.fetch override
    let value ← operands.operand.load .word
    modifyRegisters (·.setSegment (.ofIndex operands.field) value)
  | loadAccumulator width =>
    let place ← fetchPlace override
    setRegister width accumulator (← loadData width place)
  | storeAccumulator width =>
    let place ← fetchPlace override
    storeData width place (← getRegister width accumulator)
  | exchange width => performExchange width override
  | exchangeAccumulator name =>
    modifyRegisters fun r => { r.setWord name r.ax with ax := r.word name }
  | loadAddress =>
    let operands ← Operands.fetch override
    setRegister .word operands.field (← operands.operand.place opcode).offset
  | loadFarPointer segment => performLoadFarPointer opcode segment override
  | translate => performTranslate override
  | string operation width => operation.perform width override modifiers.repetition
  | pushRegister name => push ((← registers).word name)
  | popRegister name =>
    let value ← pop
    modifyRegisters (·.setWord name value)
  | pushSegment name => push ((← registers).segment name)
  | popSegment name =>
    let value ← pop
    modifyRegisters (·.setSegment name value)
  | pushAll => performPushAll
  | popAll => performPopAll
  | pushImmediate short => push (← fetchNumber .word short)
  | popToForm =>
    let operands ← Operands.fetch override
    operands.operand.store .word (← pop)
  | pushFlags => push (← registers).flags
  | popFlags =>
    let flags ← pop
    modifyRegisters fun r => { r with flags := Flags.load flags }
  | enter => performEnter
  | leave => performLeave
  | flagsFromHigh => modifyRegisters fun r =>
      { r with flags := Flags.load (Word.ofBytes (r.byte .ah) (Word.high r.flags)) }
  | flagsToHigh => modifyRegisters fun r => r.setByte .ah (Word.low r.flags)
  | complementCarry => modifyRegisters fun r => r.setFlag .carry (!r.flag .carry)
  | setFlag flag value => modifyRegisters (·.setFlag flag value)
  | carryToLow => modifyRegisters fun r => r.setByte .al (if r.flag .carry then 0xff else 0)
  | jumpIf condition negated => performJumpIf condition negated
  | loop condition => performLoop condition
  | jumpIfCounterZero => performJumpIfCounterZero
  | jump short => jumpBy (← fetchNumber .word short)
  | jumpFar => jumpFarTo (← fetchPointer)
  | call => performCall
  | callFar => performCallFar
  | returnNear releases => performReturn releases
  | returnFar releases => performReturnFar releases
  | returnFromInterrupt => performReturnFromInterrupt
  | interrupt => giveUp (.interrupt (← fetchByte))
  | breakpoint => giveUp (.interrupt 3)
  | interruptOnOverflow => if (← registers).flag .overflow then giveUp (.interrupt 4)
  | idle | halt => return ()
  | unsupported => giveUp (.unsupportedOpcode opcode)
  | undefined => giveUp (.undefinedOpcode opcode)

end Instruction

end CmStream
