import CmStream.Machine.Encoding
import CmStream.Proofs.Machine.Reading

/-!
# How far each instruction reads

How many bytes belong to an instruction behind its opcode, and whether it transfers control. An
instruction reads just these bytes and, unless it transfers control, goes on behind them; all
instructions leave the flags word settled.
-/

namespace CmStream

namespace Instruction

open Machine Microprogram

/-- The number of bytes of a number in an instruction. -/
def numberSize : Width → (short : Bool) → Nat
  | .byte, _ => 1
  | .word, false => 2
  | .word, true => 1

/-- Is there a byte behind the opcode that names operands? -/
def namesOperands : Instruction → Bool
  | arithmetic _ direction _ => direction != .toAccumulator
  | arithmeticGroup _ _ | test _ | multiplyBy _ | unaryGroup _ | byteGroup | wordGroup
  | shiftGroup _ _ | moveToForm _ | moveToField _ | moveImmediate _ | moveFromSegment
  | moveToSegment | exchange _ | loadAddress | loadFarPointer _ | popToForm => true
  | _ => false

/-- The number of bytes at the end of an instruction. -/
def numberLength (instruction : Instruction) (field : BitVec 3) : Nat :=
  match instruction with
  | arithmetic _ direction width =>
    if direction = .toAccumulator then numberSize width false else 0
  | arithmeticGroup width short => numberSize width short
  | testAccumulator width | moveImmediate width => numberSize width false
  | multiplyBy short | pushImmediate short | jump short => numberSize .word short
  | unaryGroup width => if UnaryOperation.ofIndex field = .test then numberSize width false else 0
  | shiftGroup _ source => if source = .immediate then 1 else 0
  | splitDigits | joinDigits | moveByte _ | jumpIf _ _ | loop _ | jumpIfCounterZero | interrupt => 1
  | moveWord _ | loadAccumulator _ | storeAccumulator _ | call => 2
  | returnNear releases | returnFar releases => if releases then 2 else 0
  | enter => 3
  | jumpFar | callFar => 4
  | _ => 0

/-- The number of bytes behind the opcode; the first of them may name operands. -/
def tailLength (instruction : Instruction) (first : Byte) : Nat :=
  let number := instruction.numberLength (Encoding.field first)
  if instruction.namesOperands then 1 + Encoding.displacementLength first + number else number

/-- Does an instruction transfer control? -/
def transfers (instruction : Instruction) (field : BitVec 3) : Bool :=
  match instruction with
  | wordGroup =>
    match WordOperation.ofIndex field with
    | .call | .callFar | .jump | .jumpFar => true
    | .increment | .decrement | .push | .undefined => false
  | jumpIf _ _ | loop _ | jumpIfCounterZero | jump _ | jumpFar | call | callFar | returnNear _
  | returnFar _ | returnFromInterrupt => true
  | _ => false

/-! ## Reading operands and numbers -/

variable {m : Machine} {n : Nat} {R : Machine → Machine → Prop}

theorem fetchByte_eq_ok {byte : Byte} {after : Machine}
    (h : fetchByte.run m = (.ok byte, after)) : m.Faces [byte] ∧ after = m.past 1 := by
  obtain ⟨code, hface, -, -, hafter, hlength⟩ := Reads.fetchByte m
  rw [h] at hafter hlength
  have hone : code.length = 1 := hlength byte rfl
  obtain ⟨first, rfl⟩ := List.length_eq_one_iff.mp hone
  rw [run_fetchByte hface] at h
  cases h
  exact ⟨hface, rfl⟩

theorem displacementLength_eq : ∀ byte : Byte, Encoding.displacementLength byte
    = if (OperandByte.ofByte byte).namesRegister then 0
      else if (OperandByte.ofByte byte).mode == 2 || (OperandByte.ofByte byte).isDirect then 2
      else if (OperandByte.ofByte byte).mode == 1 then 1 else 0 := by
  decide

theorem reads_fetchDisplacement {named : OperandByte} (m : Machine) :
    Reads Eq named.fetchDisplacement
      (if named.mode == 2 || named.isDirect then 2 else if named.mode == 1 then 1 else 0) m := by
  unfold OperandByte.fetchDisplacement
  split
  case isTrue => exact Reads.fetchWord m
  case isFalse =>
    split
    case isTrue => exact Reads.fetchSigned m
    case isFalse => exact Reads.of_looks (Looks.done _) m

theorem reads_fetchOperands (override : Option Word) (m : Machine) :
    Reads Eq (Operands.fetch override) (1 + Encoding.displacementLength m.nextByte) m := by
  refine (Reads.fetchByte m).bind fun byte hrun => ?_
  rw [(fetchByte_eq_ok hrun).1.nextByte_eq, displacementLength_eq]
  dsimp only
  by_cases hregister : (OperandByte.ofByte byte).namesRegister = true
  · rw [if_pos hregister, if_pos hregister]
    exact Reads.of_looks (Looks.done _) _
  · rw [if_neg hregister, if_neg hregister]
    refine (reads_fetchDisplacement _).bind (k := 0) fun _ _ => ?_
    exact Reads.of_looks (Looks.bind Looks.registers fun _ => Looks.done _) _

/-- The field is that of the byte that has been fetched. -/
theorem field_of_fetch {override : Option Word} {operands : Operands} {after : Machine}
    (h : (Operands.fetch override).run m = (.ok operands, after)) :
    operands.field = Encoding.field m.nextByte := by
  obtain ⟨byte, between, hbyte, hrest⟩ := run_bind_eq_ok h
  rw [(fetchByte_eq_ok hbyte).1.nextByte_eq]
  dsimp only at hrest
  split at hrest
  case isTrue =>
    cases hrest
    rfl
  case isFalse =>
    obtain ⟨displacement, between', -, hrest⟩ := run_bind_eq_ok hrest
    cases hrest
    rfl

/-- Operands, and what follows behind them. -/
theorem reads_operands [Std.Refl R] {override : Option Word} {f : Operands → Microprogram Unit}
    (hrest : ∀ operands m', operands.field = Encoding.field m.nextByte →
      Reads R (f operands) n m') :
    Reads R (Operands.fetch override >>= f)
      (1 + Encoding.displacementLength m.nextByte + n) m :=
  (reads_fetchOperands override m).bind fun operands hrun =>
    hrest operands _ (field_of_fetch hrun)

theorem reads_fetchNumber (width : Width) (short : Bool) (m : Machine) :
    Reads Eq (fetchNumber width short) (numberSize width short) m := by
  cases width with
  | byte => exact Reads.fetchByte m
  | word =>
    cases short with
    | false => exact Reads.fetchWord m
    | true => exact Reads.fetchSigned m

/-! ## Instructions that do not transfer control -/

variable (m : Machine) (override : Option Word)

theorem reads_performArithmetic (operation : Arithmetic.Operation) (direction : Direction)
    (width : Width) :
    Reads Stays (performArithmetic operation direction width override)
      ((arithmetic operation direction width).tailLength m.nextByte) m := by
  cases direction with
  | toForm =>
    refine reads_operands (n := 0) fun operands m' _ => ?_
    refine Reads.look (Looks.loadOperand _ _) fun a => ?_
    refine Reads.look (Looks.getRegister _ _) fun b => ?_
    exact Reads.of_plain (.combine operation a b fun _ => .storeOperand _ _ _) m'
  | toField =>
    refine reads_operands (n := 0) fun operands m' _ => ?_
    refine Reads.look (Looks.getRegister _ _) fun a => ?_
    refine Reads.look (Looks.loadOperand _ _) fun b => ?_
    exact Reads.of_plain (.combine operation a b fun _ => .setRegister _ _ _) m'
  | toAccumulator =>
    refine Reads.look (Looks.getRegister _ _) fun a => ?_
    refine (reads_fetchNumber width false m).bind (k := 0) fun b _ => ?_
    exact Reads.of_plain (.combine operation a b fun _ => .setRegister _ _ _) _

theorem reads_performArithmeticGroup (width : Width) (short : Bool) :
    Reads Stays (performArithmeticGroup width short override)
      ((arithmeticGroup width short).tailLength m.nextByte) m := by
  refine reads_operands fun operands m' _ => Reads.look (Looks.loadOperand _ _) fun a => ?_
  refine (reads_fetchNumber width short m').bind (k := 0) fun b _ => ?_
  exact Reads.of_plain (.combine _ a b fun _ => .storeOperand _ _ _) _

theorem reads_performMultiplyBy (short : Bool) :
    Reads Stays (performMultiplyBy short override)
      ((multiplyBy short).tailLength m.nextByte) m := by
  refine reads_operands fun operands m' _ => Reads.look (Looks.loadOperand _ _) fun a => ?_
  refine (reads_fetchNumber .word short m').bind (k := 0) fun b _ => ?_
  exact Reads.of_plain (.bind (.setRegister _ _ _) fun _ => .setProductFlags _) _

theorem reads_performUnaryGroup (width : Width) :
    Reads Stays (performUnaryGroup width override)
      ((unaryGroup width).tailLength m.nextByte) m := by
  refine reads_operands fun operands m' hfield => Reads.look (Looks.loadOperand _ _) fun value => ?_
  refine Reads.look Looks.registers fun r => ?_
  rw [numberLength, ← hfield]
  dsimp only
  cases UnaryOperation.ofIndex operands.field with
  | test =>
    refine (reads_fetchNumber width false m').bind (k := 0) fun mask _ => ?_
    refine Reads.of_plain (.bind (.settle fun flags => ?_) fun _ => .done _) _
    exact Arithmetic.settled_bitwise _ flags
  | not => exact Reads.of_plain (.storeOperand _ _ _) m'
  | neg =>
    refine Reads.of_plain (.bind (.settle fun flags => ?_) fun _ => .storeOperand _ _ _) m'
    exact Arithmetic.settled_subtract _ _ flags _
  | mul | imul => exact Reads.of_plain (.storeProduct _ _) m'
  | div | idiv => exact Reads.of_plain (.storeQuotient _ _) m'

theorem reads_performByteGroup (opcode : Byte) :
    Reads Stays (performByteGroup opcode override) (byteGroup.tailLength m.nextByte) m := by
  refine reads_operands (n := 0) fun operands m' _ => ?_
  refine Reads.look (Looks.loadOperand _ _) fun value => Reads.of_plain (.ite ?_ (.ite ?_ ?_)) m'
  · exact .bind (.settle fun flags => Arithmetic.settled_increment _ flags) fun _ =>
      .storeOperand _ _ _
  · exact .bind (.settle fun flags => Arithmetic.settled_decrement _ flags) fun _ =>
      .storeOperand _ _ _
  · exact .raise _ _

theorem reads_performShiftGroup (width : Width) (source : CountSource) :
    Reads Stays (performShiftGroup width source override)
      ((shiftGroup width source).tailLength m.nextByte) m := by
  refine reads_operands fun operands m' _ => ?_
  cases source with
  | one => exact Reads.look (Looks.done _) fun count => Reads.of_plain (.shift _ _ _ count) m'
  | counter =>
    exact Reads.look (Looks.getRegister _ _) fun count => Reads.of_plain (.shift _ _ _ count) m'
  | immediate =>
    exact (Reads.fetchByte m').bind (k := 0) fun count _ => Reads.of_plain (.shift _ _ _ count) _

theorem reads_performExchange (width : Width) :
    Reads Stays (performExchange width override) ((exchange width).tailLength m.nextByte) m := by
  refine reads_operands (n := 0) fun operands m' _ => ?_
  refine Reads.look (Looks.loadOperand _ _) fun a => Reads.look (Looks.getRegister _ _) fun b => ?_
  exact Reads.of_plain (.bind (.storeOperand _ _ _) fun _ => .setRegister _ _ _) m'

theorem reads_performLoadFarPointer (opcode : Byte) (segment : SegmentRegister) :
    Reads Stays (performLoadFarPointer opcode segment override)
      ((loadFarPointer segment).tailLength m.nextByte) m := by
  refine reads_operands (n := 0) fun operands m' _ => Reads.look (Looks.place _ _) fun place => ?_
  refine Reads.of_plain (.bind (.loadPointer place) fun target => ?_) m'
  exact .bind (.setRegister _ _ _) fun _ => .setSegment _ _

theorem reads_performEnter : Reads Stays performEnter (enter.tailLength m.nextByte) m := by
  refine (Reads.fetchWord m).bind (k := 1) fun size _ => ?_
  exact (Reads.fetchByte _).bind (k := 0) fun level _ => Reads.of_plain (.enter size _) _

/-! ## Instructions that transfer control -/

theorem settling_jumpBy (distance : Word) : Settling (jumpBy distance) :=
  .modify fun _ => .refl _

theorem settling_jumpTo (offset : Word) : Settling (jumpTo offset) := .modify fun _ => .refl _

theorem settling_jumpFarTo (target : FarPointer) : Settling (jumpFarTo target) :=
  .modify fun _ => .refl _

theorem settling_push (value : Word) : Settling (push value) := .of_plain (.push value)

theorem settling_pop : Settling pop := .of_plain .pop

theorem settling_pushReturn : Settling pushReturn := .bind .registers fun _ => settling_push _

theorem settling_pushFarReturn : Settling pushFarReturn :=
  .bind .registers fun _ => .bind (settling_push _) fun _ =>
    .bind .registers fun _ => settling_push _

theorem reads_performJumpIf (condition : Condition) (negated : Bool) :
    Reads Settles (performJumpIf condition negated) 1 m := by
  refine (Reads.fetchSigned m).bind (k := 0) fun distance _ => Reads.of_settling ?_ _
  exact .bind .registers fun _ => .ite (settling_jumpBy _) (.of_plain (.done _))

theorem reads_performLoop (condition : LoopCondition) :
    Reads Settles (performLoop condition) 1 m := by
  refine (Reads.fetchSigned m).bind (k := 0) fun distance _ => Reads.of_settling ?_ _
  refine .bind (.modify fun _ => .refl _) fun _ => .bind .registers fun _ => ?_
  exact .ite (settling_jumpBy _) (.of_plain (.done _))

theorem reads_performJumpIfCounterZero : Reads Settles performJumpIfCounterZero 1 m := by
  refine (Reads.fetchSigned m).bind (k := 0) fun distance _ => Reads.of_settling ?_ _
  exact .bind .registers fun _ => .ite (settling_jumpBy _) (.of_plain (.done _))

theorem reads_performCall : Reads Settles performCall 2 m := by
  refine (Reads.fetchWord m).bind (k := 0) fun distance _ => Reads.of_settling ?_ _
  exact .bind settling_pushReturn fun _ => settling_jumpBy _

theorem reads_performCallFar : Reads Settles performCallFar 4 m := by
  refine (Reads.fetchPointer m).bind (k := 0) fun target _ => Reads.of_settling ?_ _
  exact .bind settling_pushFarReturn fun _ => settling_jumpFarTo _

theorem reads_fetchRelease (releases : Bool) :
    Reads Eq (fetchRelease releases) (if releases then 2 else 0) m := by
  cases releases with
  | false => exact Reads.of_looks (Looks.done _) m
  | true => exact Reads.fetchWord m

theorem reads_performReturn (releases : Bool) :
    Reads Settles (performReturn releases) (if releases then 2 else 0) m := by
  refine (reads_fetchRelease m releases).bind (k := 0) fun count _ => Reads.of_settling ?_ _
  exact .bind settling_pop fun _ => .bind (settling_jumpTo _) fun _ => .of_plain (.release _)

theorem reads_performReturnFar (releases : Bool) :
    Reads Settles (performReturnFar releases) (if releases then 2 else 0) m := by
  refine (reads_fetchRelease m releases).bind (k := 0) fun count _ => Reads.of_settling ?_ _
  refine .bind settling_pop fun _ => .bind (settling_jumpTo _) fun _ => ?_
  refine .bind settling_pop fun _ => ?_
  exact .bind (.modify fun _ => .refl _) fun _ => .of_plain (.release _)

theorem settling_performReturnFromInterrupt : Settling performReturnFromInterrupt := by
  refine .bind ?_ fun _ => .bind settling_pop fun _ => .of_plain (.loadFlags _)
  refine .bind (.of_plain (.done 0)) fun _ => .bind settling_pop fun _ => ?_
  refine .bind (settling_jumpTo _) fun _ => .bind settling_pop fun _ => ?_
  exact .bind (.modify fun _ => .refl _) fun _ => .of_plain (.release _)

/-- How an instruction leaves the machine that has been moved past it. -/
def course (instruction : Instruction) (field : BitVec 3) : Machine → Machine → Prop :=
  if instruction.transfers field then Settles else Stays

instance (instruction : Instruction) (field : BitVec 3) :
    Std.Refl (instruction.course field) := by
  unfold course
  split
  case isTrue => infer_instance
  case isFalse => infer_instance

theorem reads_performWordGroup (opcode : Byte) :
    Reads (wordGroup.course (Encoding.field m.nextByte)) (performWordGroup opcode override)
      (wordGroup.tailLength m.nextByte) m := by
  refine reads_operands (n := 0) fun operands m' hfield => ?_
  rw [← hfield]
  unfold course transfers
  cases WordOperation.ofIndex operands.field with
  | increment =>
    refine Reads.of_plain (.bind (.loadOperand _ _) fun value => .bind (.settle fun flags => ?_)
      fun _ => .storeOperand _ _ _) m'
    exact Arithmetic.settled_increment _ flags
  | decrement =>
    refine Reads.of_plain (.bind (.loadOperand _ _) fun value => .bind (.settle fun flags => ?_)
      fun _ => .storeOperand _ _ _) m'
    exact Arithmetic.settled_decrement _ flags
  | call =>
    exact Reads.look (R := Settles) (Looks.loadOperand _ _) fun target => Reads.of_settling
      (.bind settling_pushReturn fun _ => settling_jumpTo target) m'
  | callFar =>
    exact Reads.look (R := Settles) (Looks.place _ _) fun place =>
      Reads.look (Looks.loadPointer _) fun target => Reads.of_settling
        (.bind settling_pushFarReturn fun _ => settling_jumpFarTo target) m'
  | jump =>
    exact Reads.look (R := Settles) (Looks.loadOperand _ _) fun target =>
      Reads.of_settling (settling_jumpTo target) m'
  | jumpFar =>
    exact Reads.look (R := Settles) (Looks.place _ _) fun place =>
      Reads.look (Looks.loadPointer _) fun target =>
        Reads.of_settling (settling_jumpFarTo target) m'
  | push => exact Reads.of_plain (.bind (.loadOperand _ _) fun _ => .push _) m'
  | undefined => exact Reads.of_plain (.raise _ _) m'

/-! ## All instructions -/

theorem reads_fetchPlace (override : Option Word) : Reads Eq (fetchPlace override) 2 m :=
  (Reads.fetchWord m).bind (k := 0) fun _ _ =>
    Reads.of_looks (Looks.bind Looks.registers fun _ => Looks.done _) _

/-- Is an instruction nothing but its opcode, and does it go on behind it? -/
def isBare : Instruction → Bool
  | increment _ | decrement _ | adjust _ | widenByte | widenWord | exchangeAccumulator _ | translate
  | string _ _ | pushRegister _ | popRegister _ | pushSegment _ | popSegment _ | pushAll | popAll
  | pushFlags | popFlags | leave | flagsFromHigh | flagsToHigh | complementCarry | setFlag _ _
  | carryToLow | breakpoint | interruptOnOverflow | idle | halt | unsupported | undefined => true
  | _ => false

theorem plain_perform {instruction : Instruction} (h : instruction.isBare = true) (opcode : Byte)
    (modifiers : Modifiers) : Plain (instruction.perform opcode modifiers) := by
  cases instruction with
  | increment name =>
    refine .inspect (fun r ip => ?_) fun r =>
      .bind (.settle fun flags => Arithmetic.settled_increment _ flags) fun _ => .setWord _ _
    rw [Registers.word_with_ip]
  | decrement name =>
    refine .inspect (fun r ip => ?_) fun r =>
      .bind (.settle fun flags => Arithmetic.settled_decrement _ flags) fun _ => .setWord _ _
    rw [Registers.word_with_ip]
  | adjust adjustment => exact .performAdjust adjustment
  | widenByte =>
    show Plain (modifyRegisters fun r => { r with ax := (r.byte .al).signExtend 16 })
    exact .modify (fun r ip => by rw [r.byte_with_ip]) fun _ => .refl _
  | widenWord =>
    show Plain (modifyRegisters fun r => { r with dx := if r.ax.msb then 0xffff else 0 })
    exact .modify (fun _ _ => rfl) fun _ => .refl _
  | exchangeAccumulator name =>
    show Plain (modifyRegisters fun r => { r.setWord name r.ax with ax := r.word name })
    exact .modify (fun r ip => by rw [r.word_with_ip, r.setWord_with_ip])
      fun r => .of_eq (r.flags_setWord _ _)
  | translate => exact .performTranslate _
  | string operation width => exact .performString operation width _ _
  | pushRegister name =>
    refine .inspect (fun r ip => ?_) fun r => .push _
    rw [Registers.word_with_ip]
  | popRegister name => exact .bind .pop fun _ => .setWord _ _
  | pushSegment name =>
    refine .inspect (fun r ip => ?_) fun r => .push _
    rw [Registers.segment_with_ip]
  | popSegment name => exact .bind .pop fun _ => .setSegment _ _
  | pushAll => exact .performPushAll
  | popAll => exact .performPopAll
  | pushFlags => exact .inspect (fun _ _ => rfl) fun _ => .push _
  | popFlags => exact .bind .pop fun _ => .loadFlags _
  | leave => exact .performLeave
  | flagsFromHigh =>
    refine .modify (fun r ip => ?_) fun r => Flags.settled_load r.flags _
    rw [Registers.byte_with_ip]
  | flagsToHigh =>
    refine .modify (fun r ip => ?_) fun r => .of_eq (r.flags_setByte _ _)
    rw [Registers.setByte_with_ip]
  | complementCarry => exact .modify (fun _ _ => rfl) fun r => Flags.settled_set r.flags _ _
  | setFlag flag value => exact .modify (fun _ _ => rfl) fun r => Flags.settled_set r.flags _ _
  | carryToLow =>
    refine .modify (fun r ip => ?_) fun r => .of_eq (r.flags_setByte _ _)
    rw [Registers.setByte_with_ip]
    rfl
  | interruptOnOverflow => exact .inspect (fun _ _ => rfl) fun _ => .ite (.raise _ _) (.done _)
  | idle | halt => exact .done _
  | breakpoint | unsupported | undefined => exact .raise _ _
  | _ => cases h

/-- An instruction reads as many bytes as belong to it, or the first few of them, and goes on behind
them unless it transfers control. -/
theorem reads_perform (instruction : Instruction) (opcode : Byte) (modifiers : Modifiers) :
    Reads (instruction.course (Encoding.field m.nextByte))
      (instruction.perform opcode modifiers) (instruction.tailLength m.nextByte) m := by
  cases instruction with
  | increment _ | decrement _ | adjust _ | widenByte | widenWord | exchangeAccumulator _ | translate
  | string _ _ | pushRegister _ | popRegister _ | pushSegment _ | popSegment _ | pushAll | popAll
  | pushFlags | popFlags | leave | flagsFromHigh | flagsToHigh | complementCarry | setFlag _ _
  | carryToLow | breakpoint | interruptOnOverflow | idle | halt | unsupported | undefined =>
    exact Reads.of_plain (plain_perform rfl _ _) m
  | arithmetic operation direction width =>
    exact reads_performArithmetic m _ operation direction width
  | arithmeticGroup width short => exact reads_performArithmeticGroup m _ width short
  | test width =>
    refine reads_operands (R := Stays) (n := 0) fun operands m' _ => Reads.of_plain ?_ m'
    exact .bind (.loadOperand _ _) fun a => .bind (.getRegister _ _) fun b =>
      .bind (.settle fun flags => Arithmetic.settled_bitwise _ flags) fun _ => .done _
  | testAccumulator width =>
    refine Reads.look (R := Stays) (Looks.getRegister _ _) fun a => ?_
    refine (reads_fetchNumber width false m).bind (k := 0) fun b _ => ?_
    exact Reads.of_plain
      (.bind (.settle fun flags => Arithmetic.settled_bitwise _ flags) fun _ => .done _) _
  | splitDigits =>
    exact (Reads.fetchByte m).bind (R := Stays) (k := 0) fun base _ =>
      Reads.of_plain (.splitDigits base) _
  | joinDigits =>
    refine (Reads.fetchByte m).bind (R := Stays) (k := 0) fun base _ => Reads.of_plain ?_ _
    exact .inspect (fun _ _ => rfl) fun r =>
      .bind (.settle fun flags => Decimal.settled_join base _ flags) fun _ => .setRegister _ _ _
  | multiplyBy short => exact reads_performMultiplyBy m _ short
  | unaryGroup width => exact reads_performUnaryGroup m _ width
  | byteGroup => exact reads_performByteGroup m _ opcode
  | wordGroup => exact reads_performWordGroup m _ opcode
  | shiftGroup width source => exact reads_performShiftGroup m _ width source
  | moveToForm width =>
    refine reads_operands (R := Stays) (n := 0) fun operands m' _ => Reads.of_plain ?_ m'
    exact .bind (.getRegister _ _) fun _ => .storeOperand _ _ _
  | moveToField width =>
    refine reads_operands (R := Stays) (n := 0) fun operands m' _ => Reads.of_plain ?_ m'
    exact .bind (.loadOperand _ _) fun _ => .setRegister _ _ _
  | moveImmediate width =>
    refine reads_operands (R := Stays) fun operands m' _ => ?_
    exact (reads_fetchNumber width false m').bind (k := 0) fun _ _ =>
      Reads.of_plain (.storeOperand _ _ _) _
  | moveByte name =>
    exact (Reads.fetchByte m).bind (R := Stays) (k := 0) fun _ _ =>
      Reads.of_plain (.setByte _ _) _
  | moveWord name =>
    exact (Reads.fetchWord m).bind (R := Stays) (k := 0) fun _ _ =>
      Reads.of_plain (.setWord _ _) _
  | moveFromSegment =>
    refine reads_operands (R := Stays) (n := 0) fun operands m' _ => Reads.of_plain ?_ m'
    refine .inspect (fun r ip => ?_) fun r => .storeOperand _ _ _
    rw [Registers.segment_with_ip]
  | moveToSegment =>
    refine reads_operands (R := Stays) (n := 0) fun operands m' _ => Reads.of_plain ?_ m'
    exact .bind (.loadOperand _ _) fun _ => .setSegment _ _
  | loadAccumulator width =>
    exact (reads_fetchPlace m _).bind (R := Stays) (k := 0) fun place _ =>
      Reads.of_plain (.bind (.loadData _ _) fun _ => .setRegister _ _ _) _
  | storeAccumulator width =>
    exact (reads_fetchPlace m _).bind (R := Stays) (k := 0) fun place _ =>
      Reads.of_plain (.bind (.getRegister _ _) fun _ => .storeData _ _ _) _
  | exchange width => exact reads_performExchange m _ width
  | loadAddress =>
    refine reads_operands (R := Stays) (n := 0) fun operands m' _ => Reads.of_plain ?_ m'
    exact .bind (.place _ _) fun _ => .setRegister _ _ _
  | loadFarPointer segment => exact reads_performLoadFarPointer m _ opcode segment
  | pushImmediate short =>
    exact (reads_fetchNumber .word short m).bind (R := Stays) (k := 0) fun _ _ =>
      Reads.of_plain (.push _) _
  | popToForm =>
    refine reads_operands (R := Stays) (n := 0) fun operands m' _ => Reads.of_plain ?_ m'
    exact .bind .pop fun _ => .storeOperand _ _ _
  | enter => exact reads_performEnter m
  | jumpIf condition negated => exact reads_performJumpIf m condition negated
  | loop condition => exact reads_performLoop m condition
  | jumpIfCounterZero => exact reads_performJumpIfCounterZero m
  | jump short =>
    exact (reads_fetchNumber .word short m).bind (R := Settles) (k := 0) fun _ _ =>
      Reads.of_settling (settling_jumpBy _) _
  | jumpFar =>
    exact (Reads.fetchPointer m).bind (R := Settles) (k := 0) fun _ _ =>
      Reads.of_settling (settling_jumpFarTo _) _
  | call => exact reads_performCall m
  | callFar => exact reads_performCallFar m
  | returnNear releases => exact reads_performReturn m releases
  | returnFar releases => exact reads_performReturnFar m releases
  | returnFromInterrupt => exact Reads.of_settling settling_performReturnFromInterrupt m
  | interrupt =>
    exact (Reads.fetchByte m).bind (R := Stays) (k := 0) fun _ _ =>
      Reads.of_plain (.raise _ _) _

end Instruction

end CmStream
