import CmStream.Proofs.Machine.Storing

/-!
# Where instructions store, one by one

Each instruction stores where the tables say. Its operand byte and its numbers are those in front of
the machine, and from there on it goes by its parts: what stores to its operand does so to that
alone, and what pushes descends by as many words as it pushes. Strings are left for later, since
their elements depend on how the step ends.
-/

namespace CmStream

open Encoding

/-- The complements store to the operand. -/
def UnaryOperation.complements : UnaryOperation → Bool
  | not | neg => true
  | _ => false

/-- Where an operation on a word stores, a register or a place in memory being its operand. -/
def WordOperation.target? (register : Bool) : WordOperation → Option Target
  | increment | decrement => if register then none else some (.operand .word)
  | call | push => some (.stack 1)
  | callFar => if register then none else some (.stack 2)
  | _ => none

namespace Instruction

/-- Where an instruction stores, with the field of the operand byte, and a register or a place in
memory named by that byte. -/
def target? (instruction : Instruction) (field : BitVec 3) (register : Bool) : Option Target :=
  let operand (width : Width) := if register then none else some (Target.operand width)
  match instruction with
  | arithmetic operation .toForm width => if operation.keepsResult then operand width else none
  | arithmeticGroup width _ =>
    if (Arithmetic.Operation.ofIndex field).keepsResult then operand width else none
  | unaryGroup width =>
    if (UnaryOperation.ofIndex field).complements then operand width else none
  | byteGroup => if field = 0 ∨ field = 1 then operand .byte else none
  | wordGroup => (WordOperation.ofIndex field).target? register
  | shiftGroup width _ | moveToForm width | moveImmediate width | exchange width => operand width
  | moveFromSegment | popToForm => operand .word
  | storeAccumulator width => some (.direct width)
  | string .movs width | string .stos width => some (.elements width)
  | pushRegister _ | pushSegment _ | pushImmediate _ | pushFlags | call => some (.stack 1)
  | callFar => some (.stack 2)
  | pushAll => some (.stack 8)
  | enter => some .frame
  | _ => none

/-- Does the entry of the map store where the table says? -/
def agreesTarget (opcode : Byte) : Opcode → Bool
  | .modifier _ => true
  | .instruction instruction => decide (∀ field register,
      Encoding.target? opcode field register = instruction.target? field register)

theorem agreesTarget_ofByte : ∀ opcode, agreesTarget opcode (Opcode.ofByte opcode) = true :=
  Opcode.forall_ofByte (by decide +kernel)

end Instruction

/-! ## The operand -/

theorem snd_select {α β : Type} (table : List (α × β)) (h : table.length = 8)
    (index : BitVec 3) : (select table h index).2
      = select (table.map Prod.snd) (by rw [List.length_map, h]) index := by
  unfold select
  rw [List.get_eq_getElem, List.get_eq_getElem, List.getElem_map]

/-- Which registers are added up makes no difference to the segment. -/
theorem OperandByte.segment_base_congr (b : OperandByte) (r r' : Registers) :
    (b.base r).2 = (b.base r').2 := by
  unfold base
  split
  case isTrue => rfl
  case isFalse =>
    rw [snd_select, snd_select]
    rfl

theorem OperandByte.segment_base (byte : Byte) (r : Registers) :
    ((OperandByte.ofByte byte).base r).2 = if usesBasePointer byte then .ss else .ds := by
  rw [segment_base_congr _ r Registers.initial]
  revert byte
  decide

namespace Machine

variable {m : Machine}

theorem formPlace_eq (m : Machine) :
    m.formPlace = ⟨m.operandSegment, m.formPlace.offset⟩ := by
  have hsegment : m.operandSegment = m.formPlace.segment := by
    have hbase : (if usesBasePointer (m.tailAt 0) then m.registers.ss else m.registers.ds)
        = m.registers.segment ((OperandByte.ofByte (m.tailAt 0)).base m.registers).2 := by
      rw [OperandByte.segment_base]
      split
      case isTrue => rfl
      case isFalse => rfl
    exact congrArg (Option.getD _) hbase
  rw [hsegment]

/-- The place is one that an instruction has as its destination, if the machine is in front of that
instruction. -/
def StoresAs (m : Machine) (instruction : Instruction) (place : FarPointer) : Prop :=
  ∃ target, instruction.target? (field (m.tailAt 0)) (namesRegister (m.tailAt 0)) = some target
    ∧ m.Targets place target

variable {instruction : Instruction} {opcode : Byte} {modifiers : Modifiers} {width : Width}
  {words : Nat}

theorem storesTo_of_storesAs (hbegins : m.opcode? = some opcode)
    (hopcode : Opcode.ofByte opcode = .instruction instruction) {place : FarPointer}
    (h : m.StoresAs instruction place) : m.StoresTo place := by
  obtain ⟨target, htarget, hplace⟩ := h
  have hagrees := Instruction.agreesTarget_ofByte opcode
  rw [hopcode, Instruction.agreesTarget, decide_eq_true_eq] at hagrees
  exact ⟨opcode, target, hbegins, (hagrees _ _).trans htarget, hplace⟩

theorem formOperand_eq_memory {place : FarPointer} (h : m.formOperand = .memory place) :
    namesRegister (m.tailAt 0) = false ∧ place = m.formPlace := by
  unfold formOperand at h
  split at h
  case isTrue => cases h
  case isFalse hmemory =>
    cases h
    exact ⟨eq_false_of_ne_true hmemory, rfl⟩

theorem within_formOperand
    (htarget : instruction.target? (field (m.tailAt 0)) false = some (.operand width)) :
    m.formOperand.Within width (m.StoresAs instruction) := by
  intro place hoperand reached hreached
  obtain ⟨hmemory, rfl⟩ := formOperand_eq_memory hoperand
  rw [formPlace_eq] at hreached
  exact ⟨.operand width, by rw [hmemory, htarget], hreached⟩

theorem seen_fetchPlace {place : FarPointer} {after : Machine}
    (h : (Instruction.fetchPlace (override? m.modifiers m.registers)).run m.behindOpcode
      = (.ok place, after)) : place = m.directPlace := by
  obtain ⟨offset, between, hoffset, h⟩ := Microprogram.run_bind_eq_ok h
  obtain ⟨rfl, rfl⟩ := Microprogram.seen_fetchWord hoffset
  rw [nextByte_behindOpcode, nextByte_behindOpcode_past] at h
  cases h
  rfl

end Machine

open Machine Microprogram

namespace Instruction

variable {m : Machine} {instruction : Instruction} {width : Width} {words : Nat}

/-! ## Parts -/

section Parts

variable {places : FarPointer → Prop}

/-- Behind the operand byte and its displacement. -/
theorem storesIn_operands {rest : Operands → Microprogram Unit}
    (h : (rest ⟨field (m.tailAt 0), m.formOperand⟩).StoresIn
      (m.behindOpcode.past m.numberPlace) places) :
    StoresIn (do
      let operands ← Operands.fetch (override? m.modifiers m.registers)
      rest operands) m.behindOpcode places := by
  refine ((StoresOnly.fetchOperands _).storesIn _).bind fun operands after hrun => ?_
  obtain ⟨rfl, rfl⟩ := seen_fetchOperands hrun
  exact h

/-- The same for what stores nothing but its result. -/
theorem storesIn_operands_of_storesOnly {rest : Operands → Microprogram Unit}
    (h : (rest ⟨field (m.tailAt 0), m.formOperand⟩).StoresOnly places) :
    StoresIn (do
      let operands ← Operands.fetch (override? m.modifiers m.registers)
      rest operands) m.behindOpcode places :=
  storesIn_operands (h.storesIn _)

/-- What pushes, with the stack as it was at the beginning. -/
theorem storesIn_of_descends {p : Microprogram Unit} {between : Machine} (h : p.Descends words)
    (htarget : instruction.target? (field (m.tailAt 0)) (namesRegister (m.tailAt 0))
      = some (.stack words))
    (hstack : between.registers.stackPointer = m.registers.stackPointer) :
    p.StoresIn between (m.StoresAs instruction) :=
  (h.stores between).mono fun _ hplace => ⟨.stack words, htarget, hplace.of_eq hstack⟩

theorem storesOnly_combine (operation : Arithmetic.Operation) {n : Nat} (a b : BitVec n)
    {keep : BitVec n → Microprogram Unit}
    (hkeep : operation.keepsResult = true → ∀ value, (keep value).StoresOnly places) :
    StoresOnly places (do
      let value ← Microprogram.settle (operation.compute a b)
      if operation.keepsResult then keep value) :=
  .bind (.settle _) fun value => .ite (fun hkeeps => hkeep hkeeps value) (.pure _)

theorem storesOnly_storeQuotient (width : Width) (result : Option (Quotient.Result width.bits)) :
    (storeQuotient width result).StoresOnly places := by
  cases result with
  | some result => exact .modify _
  | none => exact .giveUp _ _

/-- What is left of a shift once its operand and its count are known. -/
theorem storesOnly_shift (shift : Shift) {operand : Operand} (count : Byte)
    (h : operand.Within width places) :
    StoresOnly places (do
      let value ← operand.load width
      let shifted ← Microprogram.settle (shift.compute value count)
      operand.store width shifted) :=
  .bind (.loadOperand _ _) fun _ => .bind (.settle _) fun _ => .storeOperand _ h

theorem storesOnly_performPopAll : performPopAll.StoresOnly places :=
  .forM fun _ => .bind .pop fun _ => .ite (fun _ => .modify _) (.pure _)

theorem storesOnly_fetchRelease (releases : Bool) : (fetchRelease releases).StoresOnly places :=
  .ite (fun _ => .fetchWord) (.pure _)

theorem storesOnly_performReturnFar (releases : Bool) :
    (performReturnFar releases).StoresOnly places := by
  refine .bind (storesOnly_fetchRelease _) fun count => .bind .pop fun offset => ?_
  refine .bind (.modify _) fun _ => .bind .pop fun segment => ?_
  exact .bind (.modify _) fun _ => .modify _

theorem storesOnly_performAdjust (adjustment : DecimalAdjustment) :
    (performAdjust adjustment).StoresOnly places := by
  refine .bind .registers fun r => ?_
  cases adjustment with
  | packedSum => exact .bind (.settle _) fun _ => .modify _
  | packedDifference => exact .bind (.settle _) fun _ => .modify _
  | unpackedSum => exact .bind (.settle _) fun _ => .modify _
  | unpackedDifference => exact .bind (.settle _) fun _ => .modify _

theorem storesOnly_performSplitDigits : performSplitDigits.StoresOnly places := by
  refine .bind .fetchByte fun base => .bind .registers fun r => ?_
  cases Decimal.split? base (r.byte .al) r.flags with
  | some computed => exact .set _
  | none => exact .giveUp _ _

/-- A string operation stores nothing if none of its elements does. -/
theorem storesOnly_performString {operation : StringOperation} {width : Width}
    (h : ∀ segment, (operation.handle width segment).StoresOnly places) (override : Option Word)
    (repetition : Option Repetition) :
    (operation.perform width override repetition).StoresOnly places := by
  have helement (segment : Word) : (operation.element width segment).StoresOnly places :=
    .bind (h segment) fun _ => .modify _
  have helements (segment : Word) (repetition : Repetition) (count : Nat) :
      (operation.elements width segment repetition count).StoresOnly places := by
    induction count with
    | zero => exact .pure _
    | succ count ih =>
      refine .bind (helement segment) fun _ => .bind (.modify _) fun _ => ?_
      exact .bind .registers fun r => .ite (fun _ => .pure _) ih
  refine .bind .registers fun r => ?_
  cases repetition with
  | none => exact helement _
  | some repetition => exact helements _ _ _

/-! ## Instructions that store nothing -/

/-- Does the instruction store nothing, whatever its operands are? -/
def storesNothing : Instruction → Bool
  | arithmetic _ .toForm _ | arithmeticGroup _ _ | unaryGroup _ | byteGroup | wordGroup
  | shiftGroup _ _ | moveToForm _ | moveImmediate _ | moveFromSegment | storeAccumulator _
  | exchange _ | string .movs _ | string .stos _ | pushRegister _ | pushSegment _ | pushAll
  | pushImmediate _ | popToForm | pushFlags | enter | call | callFar => false
  | _ => true

theorem storesOnly_perform (h : instruction.storesNothing = true) (opcode : Byte)
    (modifiers : Modifiers) : (instruction.perform opcode modifiers).StoresOnly places := by
  cases instruction with
  | arithmetic operation direction width =>
    cases direction with
    | toForm => cases h
    | toField =>
      refine .bind (.fetchOperands _) fun operands => .bind (.getRegister _ _) fun a => ?_
      refine .bind (.loadOperand _ _) fun b => ?_
      exact storesOnly_combine operation a b fun _ _ => .modify _
    | toAccumulator =>
      refine .bind (.getRegister _ _) fun a => .bind (.fetchNumber _ _) fun b => ?_
      exact storesOnly_combine operation a b fun _ _ => .modify _
  | increment name | decrement name =>
    exact .bind .registers fun _ => .bind (.settle _) fun _ => .modify _
  | test width =>
    refine .bind (.fetchOperands _) fun operands => .bind (.loadOperand _ _) fun a => ?_
    exact .bind (.getRegister _ _) fun b => .bind (.settle _) fun _ => .pure _
  | testAccumulator width =>
    refine .bind (.getRegister _ _) fun a => .bind (.fetchNumber _ _) fun b => ?_
    exact .bind (.settle _) fun _ => .pure _
  | adjust adjustment => exact storesOnly_performAdjust adjustment
  | splitDigits => exact storesOnly_performSplitDigits
  | joinDigits =>
    refine .bind .fetchByte fun base => .bind .registers fun r => ?_
    exact .bind (.settle _) fun _ => .modify _
  | multiplyBy short =>
    refine .bind (.fetchOperands _) fun operands => .bind (.loadOperand _ _) fun a => ?_
    exact .bind (.fetchNumber _ _) fun b => .bind (.modify _) fun _ => .modify _
  | widenByte | widenWord | exchangeAccumulator name | flagsFromHigh | flagsToHigh
  | complementCarry | setFlag flag value | carryToLow => exact .modify _
  | moveToField width | moveToSegment =>
    refine .bind (.fetchOperands _) fun operands => ?_
    exact .bind (.loadOperand _ _) fun _ => .modify _
  | moveByte name => exact .bind .fetchByte fun _ => .modify _
  | moveWord name => exact .bind .fetchWord fun _ => .modify _
  | loadAccumulator width =>
    exact .bind (.fetchPlace _) fun place => .bind (.loadData _ _) fun _ => .modify _
  | loadAddress =>
    refine .bind (.fetchOperands _) fun operands => ?_
    exact .bind (.placeOperand _ _) fun _ => .modify _
  | loadFarPointer segment =>
    refine .bind (.fetchOperands _) fun operands => .bind (.placeOperand _ _) fun place => ?_
    exact .bind (.loadPointer _) fun _ => .bind (.modify _) fun _ => .modify _
  | translate => exact .bind .registers fun r => .bind (.loadData _ _) fun _ => .modify _
  | string operation width =>
    have hhandle (segment : Word) : (operation.handle width segment).StoresOnly places := by
      refine .bind .registers fun r => ?_
      cases operation with
      | cmps =>
        refine .bind (.loadData _ _) fun a => .bind (.loadData _ _) fun b => ?_
        exact .bind (.settle _) fun _ => .pure _
      | lods => exact .bind (.loadData _ _) fun _ => .modify _
      | scas => exact .bind (.loadData _ _) fun b => .bind (.settle _) fun _ => .pure _
      | movs | stos => cases h
    exact storesOnly_performString hhandle _ _
  | popRegister name | popSegment name | popFlags => exact .bind .pop fun _ => .modify _
  | popAll => exact storesOnly_performPopAll
  | leave => exact .bind (.modify _) fun _ => .bind .pop fun _ => .modify _
  | jumpIf condition negated =>
    refine .bind .fetchSigned fun distance => .bind .registers fun r => ?_
    exact .ite (fun _ => .modify _) (.pure _)
  | loop condition =>
    refine .bind .fetchSigned fun distance => .bind (.modify _) fun _ => ?_
    exact .bind .registers fun r => .ite (fun _ => .modify _) (.pure _)
  | jumpIfCounterZero =>
    refine .bind .fetchSigned fun distance => .bind .registers fun r => ?_
    exact .ite (fun _ => .modify _) (.pure _)
  | jump short => exact .bind (.fetchNumber _ _) fun _ => .modify _
  | jumpFar => exact .bind .fetchPointer fun _ => .modify _
  | returnNear releases =>
    refine .bind (storesOnly_fetchRelease _) fun count => .bind .pop fun offset => ?_
    exact .bind (.modify _) fun _ => .modify _
  | returnFar releases => exact storesOnly_performReturnFar releases
  | returnFromInterrupt =>
    refine .bind (storesOnly_performReturnFar false) fun _ => ?_
    exact .bind .pop fun _ => .modify _
  | interrupt => exact .bind .fetchByte fun _ => .giveUp _ _
  | interruptOnOverflow => exact .bind .registers fun r => .ite (fun _ => .giveUp _ _) (.pure _)
  | breakpoint | unsupported | undefined => exact .giveUp _ _
  | idle | halt => exact .pure _
  | _ => cases h

end Parts

/-! ## Instructions that store -/

section Groups

variable (m)

theorem storesIn_performArithmeticGroup (width : Width) (short : Bool) :
    (performArithmeticGroup width short (override? m.modifiers m.registers)).StoresIn
      m.behindOpcode (m.StoresAs (.arithmeticGroup width short)) := by
  refine storesIn_operands_of_storesOnly (.bind (.loadOperand _ _) fun a => ?_)
  refine .bind (.fetchNumber _ _) fun b => storesOnly_combine _ a b fun hkeeps value => ?_
  exact .storeOperand _ (within_formOperand (if_pos hkeeps))

theorem storesIn_performUnaryGroup (width : Width) :
    (performUnaryGroup width (override? m.modifiers m.registers)).StoresIn
      m.behindOpcode (m.StoresAs (.unaryGroup width)) := by
  refine storesIn_operands_of_storesOnly (.bind (.loadOperand _ _) fun value => ?_)
  refine .bind .registers fun r => ?_
  have hwithin (h : (UnaryOperation.ofIndex (field (m.tailAt 0))).complements = true) :
      m.formOperand.Within width (m.StoresAs (.unaryGroup width)) :=
    within_formOperand (if_pos h)
  dsimp only
  cases hoperation : UnaryOperation.ofIndex (field (m.tailAt 0)) with
  | test => exact .bind (.fetchNumber _ _) fun _ => .bind (.settle _) fun _ => .pure _
  | not => exact .storeOperand _ (hwithin (congrArg _ hoperation))
  | neg => exact .bind (.settle _) fun _ => .storeOperand _ (hwithin (congrArg _ hoperation))
  | mul | imul => exact .modify _
  | div | idiv => exact storesOnly_storeQuotient _ _

theorem storesIn_performByteGroup (opcode : Byte) :
    (performByteGroup opcode (override? m.modifiers m.registers)).StoresIn
      m.behindOpcode (m.StoresAs .byteGroup) := by
  refine storesIn_operands_of_storesOnly (.bind (.loadOperand _ _) fun value => ?_)
  refine .ite (fun hfield => ?_) (.ite (fun hfield => ?_) (.giveUp _ _))
  · refine .bind (.settle _) fun _ => .storeOperand _ (within_formOperand ?_)
    exact if_pos (.inl hfield)
  · refine .bind (.settle _) fun _ => .storeOperand _ (within_formOperand ?_)
    exact if_pos (.inr hfield)

theorem storesIn_performShiftGroup (width : Width) (source : CountSource) :
    (performShiftGroup width source (override? m.modifiers m.registers)).StoresIn
      m.behindOpcode (m.StoresAs (.shiftGroup width source)) := by
  refine storesIn_operands_of_storesOnly ?_
  have hwithin : m.formOperand.Within width (m.StoresAs (.shiftGroup width source)) :=
    within_formOperand rfl
  have hshift (count : Byte) :=
    storesOnly_shift (Shift.ofIndex (field (m.tailAt 0))) count hwithin
  cases source with
  | one => exact hshift _
  | counter => exact .bind (.getRegister _ _) fun count => hshift count
  | immediate => exact .bind .fetchByte fun count => hshift count

theorem storesIn_performWordGroup (opcode : Byte) :
    (performWordGroup opcode (override? m.modifiers m.registers)).StoresIn
      m.behindOpcode (m.StoresAs .wordGroup) := by
  refine storesIn_operands ?_
  have htarget (register : Bool) : wordGroup.target? (field (m.tailAt 0)) register
      = (WordOperation.ofIndex (field (m.tailAt 0))).target? register := rfl
  dsimp only
  cases hoperation : WordOperation.ofIndex (field (m.tailAt 0)) with
  | increment | decrement =>
    refine StoresOnly.storesIn (.bind (.loadOperand _ _) fun value => ?_) _
    refine .bind (.settle _) fun _ => .storeOperand _ (within_formOperand ?_)
    rw [htarget, hoperation]
    rfl
  | call =>
    refine storesIn_of_descends ?_ (by rw [htarget, hoperation]; rfl)
      (stackPointer_behindOpcode_past m _)
    exact (Descends.loadOperand _ _).still fun target => Descends.pushReturn.bind fun _ =>
      .jumpTo target
  | callFar =>
    cases hoperand : m.formOperand with
    | register index =>
      exact StoresOnly.storesIn (.giveUp (.undefinedOpcode opcode) rfl) _
    | memory place =>
      have hmemory := (formOperand_eq_memory hoperand).1
      refine storesIn_of_descends ?_ (by rw [htarget, hoperation, hmemory]; rfl)
        (stackPointer_behindOpcode_past m _)
      exact (Descends.loadPointer _).still fun target => Descends.pushFarReturn.bind fun _ =>
        .jumpFarTo target
  | jump => exact StoresOnly.storesIn (.bind (.loadOperand _ _) fun _ => .modify _) _
  | jumpFar =>
    refine StoresOnly.storesIn (.bind (.placeOperand _ _) fun place => ?_) _
    exact .bind (.loadPointer _) fun _ => .modify _
  | push =>
    refine storesIn_of_descends ?_ (by rw [htarget, hoperation]; rfl)
      (stackPointer_behindOpcode_past m _)
    exact (Descends.loadOperand _ _).still fun value => .push value
  | undefined => exact StoresOnly.storesIn (.giveUp _ _) _

/-- The base pointer is pushed, then the pointers to the enclosing frames and the one to the new
frame. Room for the data of the frame is made without a store. -/
theorem storesIn_performEnter : performEnter.StoresIn m.behindOpcode (m.StoresAs .enter) := by
  refine (StoresOnly.fetchWord.storesIn _).bind fun size after hsize => ?_
  obtain ⟨-, rfl⟩ := seen_fetchWord hsize
  refine (StoresOnly.fetchByte.storesIn _).bind fun byte after hbyte => ?_
  obtain ⟨rfl, rfl⟩ := seen_fetchByte hbyte
  rw [nextByte_behindOpcode_past]
  generalize hlevel : (m.tailAt 2).toNat % 32 = level
  have hpointers (frame : Word) (now : Machine) : StoresIn (do
      if 0 < level then
        copyFramePointers (level - 1)
        push frame
      modifyRegisters fun r => { r with bp := frame, sp := r.sp - size })
      now (now.registers.Below level) := by
    have hlast (now : Machine) (places : FarPointer → Prop) :
        StoresIn (modifyRegisters fun r => { r with bp := frame, sp := r.sp - size }) now places :=
      (StoresOnly.modify _).storesIn now
    cases level with
    | zero => exact hlast now _
    | succ more =>
      rw [if_pos (Nat.succ_pos more)]
      exact (Descends.copyFramePointers more).stores_bind (fun _ =>
        (Descends.push frame).stores_bind fun _ now => hlast now (now.registers.Below 0)) now
  refine (Descends.registers.stores_bind (fun r => (Descends.push r.bp).stores_bind fun _ =>
    Descends.registers.stores_bind fun r' => hpointers r'.sp) _).mono fun place hplace => ?_
  have hbelow : m.registers.Below (0 + (1 + (0 + level))) place :=
    hplace.of_eq ((stackPointer_past 1 _).trans (stackPointer_behindOpcode_past m 2))
  rw [← hlevel, Nat.zero_add, Nat.zero_add] at hbelow
  exact ⟨.frame, rfl, hbelow⟩

theorem storesIn_storeAccumulator (width : Width) :
    StoresIn (do
      let place ← fetchPlace (override? m.modifiers m.registers)
      storeData width place (← getRegister width accumulator))
      m.behindOpcode (m.StoresAs (.storeAccumulator width)) := by
  refine ((StoresOnly.fetchPlace _).storesIn _).bind fun place after hplace => ?_
  obtain rfl := seen_fetchPlace hplace
  refine StoresOnly.storesIn (.bind (.getRegister _ _) fun value => ?_) _
  exact .storeData value fun reached hreached => ⟨.direct width, rfl, hreached⟩

end Groups

variable {opcode : Byte} {modifiers : Modifiers}

/-- An instruction other than a string operation stores where it has its destination. -/
theorem storesIn_perform (hoverride : modifiers.override = override? m.modifiers m.registers)
    (hother : ∀ operation width, instruction ≠ .string operation width) :
    (instruction.perform opcode modifiers).StoresIn m.behindOpcode (m.StoresAs instruction) := by
  have hpush {p : Microprogram Unit} (h : p.Descends 1) (htarget : instruction.target?
      (field (m.tailAt 0)) (namesRegister (m.tailAt 0)) = some (.stack 1)) :
      p.StoresIn m.behindOpcode (m.StoresAs instruction) :=
    storesIn_of_descends h htarget (stackPointer_behindOpcode m)
  obtain ⟨_, repetition⟩ := modifiers
  cases hoverride
  cases instruction with
  | arithmetic operation direction width =>
    cases direction with
    | toForm =>
      refine storesIn_operands_of_storesOnly (.bind (.loadOperand _ _) fun a => ?_)
      refine .bind (.getRegister _ _) fun b => storesOnly_combine _ a b fun hkeeps _ => ?_
      exact .storeOperand _ (within_formOperand (if_pos hkeeps))
    | toField | toAccumulator => exact (storesOnly_perform rfl opcode _).storesIn _
  | arithmeticGroup width short => exact storesIn_performArithmeticGroup m _ _
  | unaryGroup width => exact storesIn_performUnaryGroup m width
  | byteGroup => exact storesIn_performByteGroup m opcode
  | wordGroup => exact storesIn_performWordGroup m opcode
  | shiftGroup width source => exact storesIn_performShiftGroup m width source
  | moveToForm width =>
    refine storesIn_operands_of_storesOnly (.bind (.getRegister _ _) fun _ => ?_)
    exact .storeOperand _ (within_formOperand rfl)
  | moveImmediate width =>
    refine storesIn_operands_of_storesOnly (.bind (.fetchNumber _ _) fun _ => ?_)
    exact .storeOperand _ (within_formOperand rfl)
  | moveFromSegment =>
    refine storesIn_operands_of_storesOnly (.bind .registers fun _ => ?_)
    exact .storeOperand _ (within_formOperand rfl)
  | popToForm =>
    refine storesIn_operands_of_storesOnly (.bind .pop fun _ => ?_)
    exact .storeOperand _ (within_formOperand rfl)
  | exchange width =>
    refine storesIn_operands_of_storesOnly (.bind (.loadOperand _ _) fun a => ?_)
    refine .bind (.getRegister _ _) fun b => .bind (.storeOperand _ ?_) fun _ => .modify _
    exact within_formOperand rfl
  | storeAccumulator width => exact storesIn_storeAccumulator m width
  | string operation width => exact absurd rfl (hother operation width)
  | pushRegister name | pushSegment name | pushFlags =>
    exact hpush (Descends.registers.still fun _ => .push _) rfl
  | pushImmediate short => exact hpush ((Descends.fetchWordNumber short).still fun _ => .push _) rfl
  | call =>
    refine hpush (Descends.fetchWord.still fun distance => ?_) rfl
    exact Descends.pushReturn.bind fun _ => .jumpBy distance
  | callFar =>
    have hdescends : performCallFar.Descends 2 := Descends.fetchPointer.still fun target =>
      Descends.pushFarReturn.bind fun _ => .jumpFarTo target
    exact storesIn_of_descends hdescends rfl (stackPointer_behindOpcode m)
  | pushAll =>
    have hdescends : performPushAll.Descends 8 :=
      Descends.registers.still fun _ => .forM fun _ => .push _
    exact storesIn_of_descends hdescends rfl (stackPointer_behindOpcode m)
  | enter => exact storesIn_performEnter m
  | _ => exact (storesOnly_perform rfl opcode _).storesIn _

end Instruction

end CmStream
