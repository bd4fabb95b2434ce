import CmStream.Checked.Arithmetic
import CmStream.Machine.Step

/-!
# Instructions with arithmetic that has to be defined

An instruction that computes with its operands does so in numbers that may turn out not to fit, or
by a division that may turn out not to be defined; then the whole instruction is not defined. What
else an instruction does, moving data and control, wraps or does not compute at all, and is what
`Instruction.perform` says; only the upper half of a register is reached by a shift, everywhere in
the same way (`upperByte`, `joinBytes`).
-/

namespace CmStream

namespace Checked

open Microprogram Instruction

/-- A microprogram with computations in between that may turn out not to be defined. -/
abbrev Program (α : Type) := OptionT Microprogram α

namespace Program

/-- The value of a computation that has to be defined. -/
def ofOption {α : Type} (computation : Option α) : Program α := OptionT.mk (pure computation)

/-- Takes over the flags of a computation that has to be defined, and hands on its result. -/
def settle {n : Nat} (compute : Word → Option (Computed n)) : Program (BitVec n) := do
  let r ← registers
  let computed ← ofOption (compute r.flags)
  setRegisters { r with flags := computed.flags }
  return computed.value

end Program

open Program

/-! ## Sums, differences and shifts -/

def performArithmetic (operation : Arithmetic.Operation) (direction : Direction) (width : Width)
    (override : Option Word) : Program Unit := do
  match direction with
  | .toForm =>
    let operands ← Operands.fetch override
    let a ← operands.operand.load width
    let b ← getRegister width operands.field
    let value ← Program.settle (compute operation a b)
    if operation.keepsResult then operands.operand.store width value
  | .toField =>
    let operands ← Operands.fetch override
    let a ← getRegister width operands.field
    let b ← operands.operand.load width
    let value ← Program.settle (compute operation a b)
    if operation.keepsResult then setRegister width operands.field value
  | .toAccumulator =>
    let a ← getRegister width accumulator
    let b ← fetchNumber width false
    let value ← Program.settle (compute operation a b)
    if operation.keepsResult then setRegister width accumulator value

def performArithmeticGroup (width : Width) (short : Bool) (override : Option Word) :
    Program Unit := do
  let operands ← Operands.fetch override
  let operation := Arithmetic.Operation.ofIndex operands.field
  let a ← operands.operand.load width
  let b ← fetchNumber width short
  let value ← Program.settle (compute operation a b)
  if operation.keepsResult then operands.operand.store width value

/-- Replaces a register by what is computed from it. -/
def performOnRegister (name : WordRegister) (compute : Word → Word → Option (Computed 16)) :
    Program Unit := do
  let r ← registers
  let value ← Program.settle (compute (r.word name))
  modifyRegisters (·.setWord name value)

def performByteGroup (opcode : Byte) (override : Option Word) : Program Unit := do
  let operands ← Operands.fetch override
  let value ← operands.operand.load .byte
  if operands.field = 0 then
    let sum ← Program.settle (increment value)
    operands.operand.store .byte sum
  else if operands.field = 1 then
    let difference ← Program.settle (decrement value)
    operands.operand.store .byte difference
  else OptionT.lift (giveUp (.undefinedOpcode opcode))

def performWordGroup (opcode : Byte) (override : Option Word) : Program Unit := do
  let operands ← Operands.fetch override
  match WordOperation.ofIndex operands.field with
  | .increment =>
    let value ← operands.operand.load .word
    let sum ← Program.settle (increment value)
    operands.operand.store .word sum
  | .decrement =>
    let value ← operands.operand.load .word
    let difference ← Program.settle (decrement value)
    operands.operand.store .word difference
  | .call =>
    let target ← operands.operand.load .word
    pushReturn
    jumpTo target
  | .callFar =>
    let target ← loadPointer (← operands.operand.place opcode)
    pushFarReturn
    jumpFarTo target
  | .jump => jumpTo (← operands.operand.load .word)
  | .jumpFar => jumpFarTo (← loadPointer (← operands.operand.place opcode))
  | .push => push (← operands.operand.load .word)
  | .undefined => OptionT.lift (giveUp (.undefinedOpcode opcode))

def performShiftGroup (width : Width) (source : CountSource) (override : Option Word) :
    Program Unit := do
  let operands ← Operands.fetch override
  let count ← match source with
    | .one => pure 1
    | .counter => getRegister .byte 1
    | .immediate => fetchByte
  let value ← operands.operand.load width
  let shifted ← Program.settle (Shift.compute (CmStream.Shift.ofIndex operands.field) value count)
  operands.operand.store width shifted

/-! ## Products and quotients -/

def performMultiplyBy (short : Bool) (override : Option Word) : Program Unit := do
  let operands ← Operands.fetch override
  let a ← operands.operand.load .word
  let b ← fetchNumber .word short
  let product ← ofOption (signedProduct a b)
  setRegister .word operands.field product.lower
  modifyRegisters fun r => { r with flags := product.setFlags r.flags }

def performUnaryGroup (width : Width) (override : Option Word) : Program Unit := do
  let operands ← Operands.fetch override
  let value ← operands.operand.load width
  let r ← registers
  let lower := r.get width accumulator
  let upper := r.get width (extension width)
  match UnaryOperation.ofIndex operands.field with
  | .test =>
    let mask ← fetchNumber width false
    discard (Microprogram.settle (Arithmetic.bitwise (value &&& mask)))
  | .not => operands.operand.store width (~~~value)
  | .neg =>
    let less ← Program.settle (difference 0 value false)
    operands.operand.store width less
  | .mul => storeProduct width (← ofOption (product lower value))
  | .imul => storeProduct width (← ofOption (signedProduct lower value))
  | .div => storeQuotient width (← ofOption (quotient? upper lower value))
  | .idiv => storeQuotient width (← ofOption (signedQuotient? upper lower value))

def performSplitDigits : Program Unit := do
  let base ← fetchByte
  let r ← registers
  match ← ofOption (split? base (r.byte .al) r.flags) with
  | some computed => setRegisters { r with ax := computed.value, flags := computed.flags }
  | none => OptionT.lift (giveUp .divideError)

/-! ## Comparisons of strings -/

/-- What happens to the element under the indices. -/
def handle (operation : StringOperation) (width : Width) (sourceSegment : Word) :
    Program Unit := do
  let r ← registers
  let source : FarPointer := ⟨sourceSegment, r.si⟩
  let destination : FarPointer := ⟨r.es, r.di⟩
  match operation with
  | .movs =>
    let value ← loadData width source
    storeData width destination value
  | .cmps =>
    let a ← loadData width source
    let b ← loadData width destination
    discard (Program.settle (difference a b false))
  | .stos => storeData width destination (r.get width 0)
  | .lods =>
    let value ← loadData width source
    modifyRegisters (·.set width 0 value)
  | .scas =>
    let b ← loadData width destination
    discard (Program.settle (difference (r.get width 0) b false))

/-- One element, and on to the next. -/
def element (operation : StringOperation) (width : Width) (sourceSegment : Word) :
    Program Unit := do
  handle operation width sourceSegment
  modifyRegisters (operation.advance width)

/-- At most `count` elements. -/
def elements (operation : StringOperation) (width : Width) (sourceSegment : Word)
    (repetition : Repetition) : (count : Nat) → Program Unit
  | 0 => return ()
  | count + 1 => do
    element operation width sourceSegment
    modifyRegisters fun r => { r with cx := r.cx - 1 }
    let r ← registers
    if operation.isOver repetition r then return ()
    elements operation width sourceSegment repetition count

def performString (operation : StringOperation) (width : Width) (override : Option Word)
    (repetition : Option Repetition) : Program Unit := do
  let r ← registers
  let sourceSegment := override.getD r.ds
  match repetition with
  | none => element operation width sourceSegment
  | some repetition => elements operation width sourceSegment repetition r.cx.toNat

/-! ## All instructions -/

def perform (instruction : Instruction) (opcode : Byte) (modifiers : Modifiers) : Program Unit :=
  let override := modifiers.override
  match instruction with
  | .arithmetic operation direction width => performArithmetic operation direction width override
  | .arithmeticGroup width short => performArithmeticGroup width short override
  | .increment name => performOnRegister name increment
  | .decrement name => performOnRegister name decrement
  | .splitDigits => performSplitDigits
  | .multiplyBy short => performMultiplyBy short override
  | .unaryGroup width => performUnaryGroup width override
  | .byteGroup => performByteGroup opcode override
  | .wordGroup => performWordGroup opcode override
  | .shiftGroup width source => performShiftGroup width source override
  | .string operation width => performString operation width override modifiers.repetition
  | other => OptionT.lift (other.perform opcode modifiers)

/-- Fetches an instruction, counting the modifiers in front of it. The count is checked behind each
of them, so there are never more turns than that. -/
def fetch : (turns counted : Nat) → Modifiers → Program Fetched
  | 0, _, _ => ofOption none
  | turns + 1, counted, modifiers => do
    let byte ← fetchByte
    match Opcode.ofByte byte with
    | .instruction instruction => return ⟨byte, instruction, modifiers⟩
    | .modifier modifier =>
      let counted ← ofOption (Number.add 64 counted 1)
      if maxModifiers < counted then OptionT.lift (giveUp (.undefinedOpcode byte))
      else
        let r ← registers
        fetch turns counted (modifiers.add modifier r)

/-- A whole instruction; says whether it halts the machine. -/
def fetchAndPerform : Program Bool := do
  let fetched ← fetch (maxModifiers + 1) 0 Modifiers.none
  perform fetched.instruction fetched.opcode fetched.modifiers
  return fetched.instruction == .halt

end Checked

end CmStream
