import CmStream.Machine.Shift
import CmStream.Machine.StringOperation

/-!
# The opcode map

What each of the 256 first bytes stands for: a modifier of the instruction that follows, or an
instruction. The map is laid out in rows of sixteen, as the upper digit of the byte counts.
-/

namespace CmStream

/-- A byte in front of an instruction. -/
inductive Modifier where
  | segment (name : SegmentRegister)
  | lock
  | repetition (repetition : Repetition)
  deriving DecidableEq, Repr

/-- What a conditional jump looks at. -/
inductive Condition where
  | overflow | carry | zero | carryOrZero | sign | parity | less | lessOrEqual
  deriving DecidableEq, Repr

namespace Condition

/-- Is the condition met? A signed comparison is less if sign and overflow differ. -/
def holds (condition : Condition) (r : Registers) : Bool :=
  let less := r.flag .sign != r.flag .overflow
  match condition with
  | overflow => r.flag .overflow
  | carry => r.flag .carry
  | zero => r.flag .zero
  | carryOrZero => r.flag .carry || r.flag .zero
  | sign => r.flag .sign
  | parity => r.flag .parity
  | .less => less
  | lessOrEqual => r.flag .zero || less

end Condition

/-- What a loop asks of the zero flag besides a counter that is not zero. -/
inductive LoopCondition where
  | whileNotEqual | whileEqual | always
  deriving DecidableEq, Repr

namespace LoopCondition

def holds (condition : LoopCondition) (r : Registers) : Bool :=
  match condition with
  | whileNotEqual => !r.flag .zero
  | whileEqual => r.flag .zero
  | always => true

end LoopCondition

/-- Where the count of a shift comes from. -/
inductive CountSource where
  | one | counter | immediate
  deriving DecidableEq, Repr

/-- How an instruction with two operands gets them: from the operand byte, the result going to
the form or to the field, or from the accumulator and the instruction itself. -/
inductive Direction where
  | toForm | toField | toAccumulator
  deriving DecidableEq, Repr

/-- The corrections of the accumulator for decimal digits. -/
inductive DecimalAdjustment where
  | packedSum | packedDifference | unpackedSum | unpackedDifference
  deriving DecidableEq, Repr

inductive Instruction where
  -- Arithmetic
  | arithmetic (operation : Arithmetic.Operation) (direction : Direction) (width : Width)
  /-- The field chooses the operation, and the second operand is a number; `short` numbers are
  single bytes that are widened with their sign. -/
  | arithmeticGroup (width : Width) (short : Bool)
  | increment (register : WordRegister)
  | decrement (register : WordRegister)
  | test (width : Width)
  | testAccumulator (width : Width)
  | adjust (adjustment : DecimalAdjustment)
  | splitDigits
  | joinDigits
  | multiplyBy (short : Bool)
  /-- The field chooses among a test, complements, products and quotients. -/
  | unaryGroup (width : Width)
  /-- The field chooses between adding and subtracting one. -/
  | byteGroup
  /-- The field chooses among adding and subtracting one, calls, jumps and a push. -/
  | wordGroup
  | shiftGroup (width : Width) (count : CountSource)
  | widenByte
  | widenWord
  -- Data
  | moveToForm (width : Width)
  | moveToField (width : Width)
  | moveImmediate (width : Width)
  | moveByte (register : ByteRegister)
  | moveWord (register : WordRegister)
  | moveFromSegment
  | moveToSegment
  | loadAccumulator (width : Width)
  | storeAccumulator (width : Width)
  | exchange (width : Width)
  | exchangeAccumulator (register : WordRegister)
  | loadAddress
  | loadFarPointer (segment : SegmentRegister)
  | translate
  | string (operation : StringOperation) (width : Width)
  -- The stack
  | pushRegister (register : WordRegister)
  | popRegister (register : WordRegister)
  | pushSegment (segment : SegmentRegister)
  | popSegment (segment : SegmentRegister)
  | pushAll
  | popAll
  | pushImmediate (short : Bool)
  | popToForm
  | pushFlags
  | popFlags
  | enter
  | leave
  -- Flags
  | flagsFromHigh
  | flagsToHigh
  | complementCarry
  | setFlag (flag : Flag) (value : Bool)
  | carryToLow
  -- Transfer of control
  | jumpIf (condition : Condition) (negated : Bool)
  | loop (condition : LoopCondition)
  | jumpIfCounterZero
  | jump (short : Bool)
  | jumpFar
  | call
  | callFar
  | returnNear (releases : Bool)
  | returnFar (releases : Bool)
  | returnFromInterrupt
  | interrupt
  | breakpoint
  | interruptOnOverflow
  -- The rest
  | idle
  | halt
  | unsupported
  | undefined
  deriving DecidableEq, Repr

/-- What a first byte stands for. -/
inductive Opcode where
  | modifier (modifier : Modifier)
  | instruction (instruction : Instruction)
  deriving DecidableEq, Repr

namespace Opcode

/-! ## Rows -/

/-- The six ways to encode an operation with two operands. -/
def arithmeticForms (operation : Arithmetic.Operation) : List Opcode :=
  [.toForm, .toField, .toAccumulator].flatMap fun direction =>
    [.byte, .word].map fun width => .instruction (.arithmetic operation direction width)

/-- An entry of its own for both widths. -/
def both (entry : Width → Instruction) : List Opcode :=
  [.instruction (entry .byte), .instruction (entry .word)]

/-- An entry for each of eight registers. -/
def each {α : Type} (names : List α) (entry : α → Instruction) : List Opcode :=
  names.map fun name => .instruction (entry name)

/-- A condition and its opposite. -/
def jumps (condition : Condition) : List Opcode :=
  [.instruction (.jumpIf condition false), .instruction (.jumpIf condition true)]

def plain (instructions : List Instruction) : List Opcode := instructions.map .instruction

def several (count : Nat) (entry : Instruction) : List Opcode :=
  List.replicate count (.instruction entry)

def override (name : SegmentRegister) : List Opcode := [.modifier (.segment name)]

def row0 : List Opcode :=
  arithmeticForms .add ++ plain [.pushSegment .es, .popSegment .es]
    ++ arithmeticForms .or ++ plain [.pushSegment .cs, .undefined]

def row1 : List Opcode :=
  arithmeticForms .adc ++ plain [.pushSegment .ss, .popSegment .ss]
    ++ arithmeticForms .sbb ++ plain [.pushSegment .ds, .popSegment .ds]

def row2 : List Opcode :=
  arithmeticForms .and ++ override .es ++ plain [.adjust .packedSum]
    ++ arithmeticForms .sub ++ override .cs ++ plain [.adjust .packedDifference]

def row3 : List Opcode :=
  arithmeticForms .xor ++ override .ss ++ plain [.adjust .unpackedSum]
    ++ arithmeticForms .cmp ++ override .ds ++ plain [.adjust .unpackedDifference]

def row4 : List Opcode := each WordRegister.all .increment ++ each WordRegister.all .decrement

def row5 : List Opcode := each WordRegister.all .pushRegister ++ each WordRegister.all .popRegister

def row6 : List Opcode :=
  plain [.pushAll, .popAll, .unsupported, .undefined] ++ several 4 .unsupported
    ++ plain [.pushImmediate false, .multiplyBy false, .pushImmediate true, .multiplyBy true]
    ++ several 4 .unsupported

def row7 : List Opcode :=
  [.overflow, .carry, .zero, .carryOrZero, .sign, .parity, .less, .lessOrEqual].flatMap jumps

def row8 : List Opcode :=
  both (.arithmeticGroup · false)
    ++ plain [.arithmeticGroup .byte false, .arithmeticGroup .word true]
    ++ both .test ++ both .exchange ++ both .moveToForm ++ both .moveToField
    ++ plain [.moveFromSegment, .loadAddress, .moveToSegment, .popToForm]

def row9 : List Opcode :=
  plain [.idle] ++ each WordRegister.all.tail .exchangeAccumulator
    ++ plain [.widenByte, .widenWord, .callFar, .idle, .pushFlags, .popFlags, .flagsFromHigh,
      .flagsToHigh]

def rowA : List Opcode :=
  both .loadAccumulator ++ both .storeAccumulator ++ both (.string .movs) ++ both (.string .cmps)
    ++ both .testAccumulator ++ both (.string .stos) ++ both (.string .lods)
    ++ both (.string .scas)

def rowB : List Opcode := each ByteRegister.all .moveByte ++ each WordRegister.all .moveWord

def rowC : List Opcode :=
  both (.shiftGroup · .immediate) ++ plain [.returnNear true, .returnNear false]
    ++ plain [.loadFarPointer .es, .loadFarPointer .ds] ++ both .moveImmediate
    ++ plain [.enter, .leave, .returnFar true, .returnFar false, .breakpoint, .interrupt,
      .interruptOnOverflow, .returnFromInterrupt]

def rowD : List Opcode :=
  both (.shiftGroup · .one) ++ both (.shiftGroup · .counter)
    ++ plain [.splitDigits, .joinDigits, .carryToLow, .translate] ++ several 8 .unsupported

def rowE : List Opcode :=
  each [.whileNotEqual, .whileEqual, .always] .loop ++ plain [.jumpIfCounterZero]
    ++ several 4 .unsupported ++ plain [.call, .jump false, .jumpFar, .jump true]
    ++ several 4 .unsupported

def rowF : List Opcode :=
  [.modifier .lock, .instruction .undefined, .modifier (.repetition .whileNotEqual),
      .modifier (.repetition .whileEqual)]
    ++ plain [.halt, .complementCarry] ++ both .unaryGroup
    ++ plain [.setFlag .carry false, .setFlag .carry true, .setFlag .interrupt false,
      .setFlag .interrupt true, .setFlag .direction false, .setFlag .direction true]
    ++ plain [.byteGroup, .wordGroup]

/-- All rows one after the other. -/
def rows : List Opcode :=
  row0 ++ row1 ++ row2 ++ row3 ++ row4 ++ row5 ++ row6 ++ row7
    ++ row8 ++ row9 ++ rowA ++ rowB ++ rowC ++ rowD ++ rowE ++ rowF

/-- The opcode map: an entry for every byte. -/
def map : Vector Opcode 256 := ⟨rows.toArray, by decide +kernel⟩

def ofByte (b : Byte) : Opcode := map.get b.toFin

end Opcode

end CmStream
