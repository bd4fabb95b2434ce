import CmStream.Machine.Step

/-!
# Programs that do not give up

Most instructions give up only where an access is refused. Such a program persists: nowhere in it
stands a cause of its own. The instructions that may give up by themselves are listed here, too;
all others persist.
-/

namespace CmStream

namespace Microprogram

variable {α β : Type}

/-- The program does not give up by itself. -/
def Persists : Microprogram α → Prop
  | done _ => True
  | raise _ _ => False
  | load _ _ _ next => ∀ byte, (next byte).Persists
  | store _ _ next => (next ()).Persists
  | inspect next => ∀ r, (next r).Persists
  | replace _ next => (next ()).Persists

/-- What ends a program that persists is a refused access. -/
theorem Persists.exists_fault {p : Microprogram α} (h : p.Persists) {m : Machine} {cause : Cause}
    (hrun : (p.run m).1 = .error cause) : ∃ fault, cause = .fault fault := by
  induction p generalizing m with
  | done value => cases hrun
  | raise cause own => exact h.elim
  | load access reads place next ih =>
    rw [run] at hrun
    split at hrun
    case h_1 byte _ => exact ih byte (h byte) hrun
    case h_2 fault _ =>
      cases hrun
      exact ⟨fault, rfl⟩
  | store place value next ih =>
    rw [run] at hrun
    split at hrun
    case h_1 => exact ih () h hrun
    case h_2 fault _ =>
      cases hrun
      exact ⟨fault, rfl⟩
  | inspect next ih => exact ih m.registers (h m.registers) hrun
  | replace registers next ih => exact ih (m := { m with registers := registers }) () h hrun

namespace Persists

variable {p : Microprogram α} {f : α → Microprogram β}

theorem pure (value : α) : Persists (Pure.pure value : Microprogram α) := trivial

theorem bind (h : p.Persists) (hrest : ∀ value, (f value).Persists) : (p >>= f).Persists := by
  rw [bind_eq_andThen]
  induction p with
  | done value => exact hrest value
  | raise cause own => exact h.elim
  | load access reads place next ih => exact fun byte => ih byte (h byte)
  | store place value next ih => exact ih () h
  | inspect next ih => exact fun r => ih r (h r)
  | replace registers next ih => exact ih () h

theorem ite {c : Prop} [Decidable c] {q : Microprogram α} (hp : p.Persists) (hq : q.Persists) :
    (if c then p else q).Persists := by
  split
  case isTrue => exact hp
  case isFalse => exact hq

theorem forM {γ : Type} {xs : List γ} {f : γ → Microprogram PUnit} (h : ∀ x, (f x).Persists) :
    (xs.forM f).Persists := by
  induction xs with
  | nil => exact pure _
  | cons x xs ih => exact bind (h x) fun _ => ih

/-! ## Parts -/

theorem registers : registers.Persists := fun _ => trivial

theorem set (r : Registers) : (setRegisters r).Persists := trivial

theorem modify (change : Registers → Registers) : (modifyRegisters change).Persists :=
  fun _ => trivial

theorem settle {n : Nat} (compute : Word → Computed n) : (settle compute).Persists :=
  fun _ => trivial

theorem loadWord (place : FarPointer) : (loadWord place).Persists := fun _ _ => trivial

theorem loadData (width : Width) (place : FarPointer) : (loadData width place).Persists := by
  cases width with
  | byte => exact fun _ => trivial
  | word => exact loadWord place

theorem storeData (width : Width) (place : FarPointer) (value : BitVec width.bits) :
    (storeData width place value).Persists := by
  cases width with
  | byte => exact trivial
  | word => exact trivial

theorem loadPointer (place : FarPointer) : (loadPointer place).Persists :=
  bind (loadWord place) fun _ => bind (loadWord _) fun _ => pure _

theorem fetchByte : fetchByte.Persists := fun _ _ => trivial

theorem fetchWord : fetchWord.Persists := bind fetchByte fun _ => bind fetchByte fun _ => pure _

theorem fetchSigned : fetchSigned.Persists := bind fetchByte fun _ => pure _

theorem fetchPointer : fetchPointer.Persists :=
  bind fetchWord fun _ => bind fetchWord fun _ => pure _

theorem push (value : Word) : (push value).Persists := fun _ _ => trivial

theorem pop : pop.Persists :=
  bind registers fun _ => bind (loadWord _) fun _ => bind (modify _) fun _ => pure _

theorem loadOperand (operand : Operand) (width : Width) : (operand.load width).Persists := by
  cases operand with
  | register index => exact bind registers fun _ => pure _
  | memory place => exact loadData width place

theorem storeOperand (operand : Operand) (width : Width) (value : BitVec width.bits) :
    (operand.store width value).Persists := by
  cases operand with
  | register index => exact modify _
  | memory place => exact storeData width place value

theorem fetchDisplacement (named : OperandByte) : named.fetchDisplacement.Persists :=
  ite fetchWord (ite fetchSigned (pure _))

theorem fetchOperands (override : Option Word) : (Operands.fetch override).Persists := by
  refine bind fetchByte fun byte => ite (pure _) ?_
  exact bind (fetchDisplacement _) fun _ => bind registers fun _ => pure _

end Persists

end Microprogram

namespace Instruction

open Microprogram

/-- Does an instruction give up only where an access is refused? -/
def persists : Instruction → Bool
  | splitDigits | unaryGroup _ | byteGroup | wordGroup | loadAddress | loadFarPointer _ | interrupt
  | breakpoint | interruptOnOverflow | unsupported | undefined => false
  | _ => true

section Parts

open Persists

theorem persists_fetchNumber (width : Width) (short : Bool) :
    (fetchNumber width short).Persists := by
  cases width with
  | byte => exact fetchByte
  | word =>
    cases short with
    | false => exact fetchWord
    | true => exact fetchSigned

theorem persists_getRegister (width : Width) (index : RegisterIndex) :
    (getRegister width index).Persists :=
  bind Persists.registers fun _ => pure _

theorem persists_pushReturn : pushReturn.Persists :=
  bind Persists.registers fun _ => Persists.push _

theorem persists_pushFarReturn : pushFarReturn.Persists :=
  bind Persists.registers fun _ => bind (Persists.push _) fun _ => persists_pushReturn

/-- What is left of an operation once both of its operands are known. -/
theorem persists_combine (operation : Arithmetic.Operation) {n : Nat} (a b : BitVec n)
    {keep : BitVec n → Microprogram Unit} (hkeep : ∀ value, (keep value).Persists) :
    Persists (do
      let value ← Microprogram.settle (operation.compute a b)
      if operation.keepsResult then keep value) :=
  bind (settle _) fun value => ite (hkeep value) (pure _)

theorem persists_performArithmetic (operation : Arithmetic.Operation) (direction : Direction)
    (width : Width) (override : Option Word) :
    (performArithmetic operation direction width override).Persists := by
  cases direction with
  | toForm =>
    refine bind (fetchOperands _) fun operands => bind (loadOperand _ _) fun a => ?_
    refine bind (persists_getRegister _ _) fun b => ?_
    exact persists_combine operation a b fun _ => storeOperand _ _ _
  | toField =>
    refine bind (fetchOperands _) fun operands => bind (persists_getRegister _ _) fun a => ?_
    refine bind (loadOperand _ _) fun b => ?_
    exact persists_combine operation a b fun _ => Persists.modify _
  | toAccumulator =>
    refine bind (persists_getRegister _ _) fun a => bind (persists_fetchNumber _ _) fun b => ?_
    exact persists_combine operation a b fun _ => Persists.modify _

theorem persists_performAdjust (adjustment : DecimalAdjustment) :
    (performAdjust adjustment).Persists := by
  refine bind Persists.registers fun r => ?_
  cases adjustment with
  | packedSum => exact bind (settle _) fun _ => Persists.modify _
  | packedDifference => exact bind (settle _) fun _ => Persists.modify _
  | unpackedSum => exact bind (settle _) fun _ => Persists.modify _
  | unpackedDifference => exact bind (settle _) fun _ => Persists.modify _

/-- What is left of a shift once its operand and its count are known. -/
theorem persists_shift (width : Width) (shift : Shift) (operand : Operand) (count : Byte) :
    Persists (do
      let value ← operand.load width
      let shifted ← Microprogram.settle (shift.compute value count)
      operand.store width shifted) :=
  bind (loadOperand _ _) fun _ => bind (settle _) fun _ => storeOperand _ _ _

theorem persists_performShiftGroup (width : Width) (source : CountSource)
    (override : Option Word) : (performShiftGroup width source override).Persists := by
  refine bind (fetchOperands _) fun operands => ?_
  cases source with
  | one => exact persists_shift _ _ _ _
  | counter => exact bind (persists_getRegister _ _) fun _ => persists_shift _ _ _ _
  | immediate => exact bind fetchByte fun _ => persists_shift _ _ _ _

theorem persists_performPopAll : performPopAll.Persists :=
  forM fun _ => bind Persists.pop fun _ => ite (Persists.modify _) (pure _)

theorem persists_copyFramePointers (count : Nat) : (copyFramePointers count).Persists := by
  induction count with
  | zero => exact pure _
  | succ count ih =>
    refine bind (Persists.modify _) fun _ => bind Persists.registers fun r => ?_
    exact bind (loadWord _) fun _ => bind (Persists.push _) fun _ => ih

theorem persists_performEnter : performEnter.Persists := by
  refine bind fetchWord fun size => bind fetchByte fun level => ?_
  refine bind Persists.registers fun r => bind (Persists.push _) fun _ => ?_
  refine bind Persists.registers fun r' => ite ?_ (Persists.modify _)
  refine bind (persists_copyFramePointers _) fun _ => bind (Persists.push _) fun _ => ?_
  exact Persists.modify _

theorem persists_fetchRelease (releases : Bool) : (fetchRelease releases).Persists :=
  ite fetchWord (pure _)

theorem persists_performReturnFar (releases : Bool) : (performReturnFar releases).Persists := by
  refine bind (persists_fetchRelease _) fun count => bind Persists.pop fun offset => ?_
  refine bind (Persists.modify _) fun _ => bind Persists.pop fun segment => ?_
  exact bind (Persists.modify _) fun _ => Persists.modify _

theorem persists_fetchPlace (override : Option Word) : (fetchPlace override).Persists :=
  bind fetchWord fun _ => bind Persists.registers fun _ => pure _

theorem persists_handle (operation : StringOperation) (width : Width) (segment : Word) :
    (operation.handle width segment).Persists := by
  refine bind Persists.registers fun r => ?_
  cases operation with
  | movs => exact bind (loadData _ _) fun _ => storeData _ _ _
  | cmps =>
    refine bind (loadData _ _) fun _ => bind (loadData _ _) fun _ => ?_
    exact bind (settle _) fun _ => pure _
  | stos => exact storeData _ _ _
  | lods => exact bind (loadData _ _) fun _ => Persists.modify _
  | scas => exact bind (loadData _ _) fun _ => bind (settle _) fun _ => pure _

theorem persists_elements (operation : StringOperation) (width : Width) (segment : Word)
    (repetition : Repetition) (count : Nat) :
    (operation.elements width segment repetition count).Persists := by
  induction count with
  | zero => exact pure _
  | succ count ih =>
    refine bind (bind (persists_handle operation width segment) fun _ => Persists.modify _)
      fun _ => bind (Persists.modify _) fun _ => ?_
    exact bind Persists.registers fun r => ite (pure _) ih

theorem persists_performString (operation : StringOperation) (width : Width)
    (override : Option Word) (repetition : Option Repetition) :
    (operation.perform width override repetition).Persists := by
  refine bind Persists.registers fun r => ?_
  cases repetition with
  | none => exact bind (persists_handle operation width _) fun _ => Persists.modify _
  | some repetition => exact persists_elements operation width _ repetition _

end Parts

open Persists in
/-- The instructions that are not on the list do not give up by themselves. -/
theorem persists_perform {instruction : Instruction} (h : instruction.persists = true)
    (opcode : Byte) (modifiers : Modifiers) :
    (instruction.perform opcode modifiers).Persists := by
  cases instruction with
  | arithmetic operation direction width => exact persists_performArithmetic _ _ _ _
  | arithmeticGroup width short =>
    refine bind (fetchOperands _) fun operands => bind (loadOperand _ _) fun a => ?_
    refine bind (persists_fetchNumber _ _) fun b => ?_
    exact persists_combine _ a b fun _ => storeOperand _ _ _
  | increment name | decrement name =>
    exact bind Persists.registers fun _ => bind (settle _) fun _ => Persists.modify _
  | test width =>
    refine bind (fetchOperands _) fun operands => bind (loadOperand _ _) fun a => ?_
    exact bind (persists_getRegister _ _) fun b => bind (settle _) fun _ => pure _
  | testAccumulator width =>
    refine bind (persists_getRegister _ _) fun a => bind (persists_fetchNumber _ _) fun b => ?_
    exact bind (settle _) fun _ => pure _
  | adjust adjustment => exact persists_performAdjust adjustment
  | joinDigits =>
    refine bind fetchByte fun base => bind Persists.registers fun r => ?_
    exact bind (settle _) fun _ => Persists.modify _
  | multiplyBy short =>
    refine bind (fetchOperands _) fun operands => bind (loadOperand _ _) fun a => ?_
    refine bind (persists_fetchNumber _ _) fun b => ?_
    exact bind (Persists.modify _) fun _ => Persists.modify _
  | shiftGroup width source => exact persists_performShiftGroup width source _
  | widenByte | widenWord | exchangeAccumulator name | flagsFromHigh | flagsToHigh
  | complementCarry | setFlag flag value | carryToLow => exact Persists.modify _
  | moveToForm width =>
    refine bind (fetchOperands _) fun operands => ?_
    exact bind (persists_getRegister _ _) fun _ => storeOperand _ _ _
  | moveToField width | moveToSegment =>
    refine bind (fetchOperands _) fun operands => ?_
    exact bind (loadOperand _ _) fun _ => Persists.modify _
  | moveImmediate width =>
    refine bind (fetchOperands _) fun operands => ?_
    exact bind (persists_fetchNumber _ _) fun _ => storeOperand _ _ _
  | moveByte name => exact bind fetchByte fun _ => Persists.modify _
  | moveWord name => exact bind fetchWord fun _ => Persists.modify _
  | moveFromSegment =>
    refine bind (fetchOperands _) fun operands => ?_
    exact bind Persists.registers fun _ => storeOperand _ _ _
  | loadAccumulator width =>
    refine bind (persists_fetchPlace _) fun place => ?_
    exact bind (loadData _ _) fun _ => Persists.modify _
  | storeAccumulator width =>
    refine bind (persists_fetchPlace _) fun place => ?_
    exact bind (persists_getRegister _ _) fun _ => storeData _ _ _
  | exchange width =>
    refine bind (fetchOperands _) fun operands => bind (loadOperand _ _) fun a => ?_
    refine bind (persists_getRegister _ _) fun b => bind (storeOperand _ _ _) fun _ => ?_
    exact Persists.modify _
  | translate =>
    exact bind Persists.registers fun r => bind (loadData _ _) fun _ => Persists.modify _
  | string operation width => exact persists_performString operation width _ _
  | pushRegister name | pushSegment name | pushFlags =>
    exact bind Persists.registers fun _ => Persists.push _
  | popRegister name | popSegment name | popFlags =>
    exact bind Persists.pop fun _ => Persists.modify _
  | pushAll => exact bind Persists.registers fun r => forM fun _ => Persists.push _
  | popAll => exact persists_performPopAll
  | pushImmediate short => exact bind (persists_fetchNumber _ _) fun _ => Persists.push _
  | popToForm =>
    refine bind (fetchOperands _) fun operands => ?_
    exact bind Persists.pop fun _ => storeOperand _ _ _
  | enter => exact persists_performEnter
  | leave => exact bind (Persists.modify _) fun _ => bind Persists.pop fun _ => Persists.modify _
  | jumpIf condition negated =>
    refine bind fetchSigned fun distance => bind Persists.registers fun r => ?_
    exact ite (Persists.modify _) (pure _)
  | loop condition =>
    refine bind fetchSigned fun distance => bind (Persists.modify _) fun _ => ?_
    exact bind Persists.registers fun r => ite (Persists.modify _) (pure _)
  | jumpIfCounterZero =>
    refine bind fetchSigned fun distance => bind Persists.registers fun r => ?_
    exact ite (Persists.modify _) (pure _)
  | jump short => exact bind (persists_fetchNumber _ _) fun _ => Persists.modify _
  | jumpFar => exact bind fetchPointer fun _ => Persists.modify _
  | call =>
    refine bind fetchWord fun distance => ?_
    exact bind persists_pushReturn fun _ => Persists.modify _
  | callFar =>
    refine bind fetchPointer fun target => ?_
    exact bind persists_pushFarReturn fun _ => Persists.modify _
  | returnNear releases =>
    refine bind (persists_fetchRelease _) fun count => bind Persists.pop fun offset => ?_
    exact bind (Persists.modify _) fun _ => Persists.modify _
  | returnFar releases => exact persists_performReturnFar releases
  | returnFromInterrupt =>
    refine bind (persists_performReturnFar false) fun _ => ?_
    exact bind Persists.pop fun _ => Persists.modify _
  | idle | halt => exact pure _
  | _ => cases h

end Instruction

end CmStream
