import CmStream.Machine.Carrying
import CmStream.Proofs.Machine.Sight

/-!
# Instructions that pass the carry on

Between the limbs of a sum a program counts, moves data and jumps. None of the instructions for that
touches the carry flag: most leave the flags word alone, and those that add or subtract one put the
carry flag back.
-/

namespace CmStream

namespace Arithmetic

variable {n : Nat} (a : BitVec n) (flags : Word)

theorem carry_increment : Flags.get (increment a flags).flags .carry = Flags.get flags .carry :=
  Flags.get_set _ .carry .carry _

theorem carry_decrement : Flags.get (decrement a flags).flags .carry = Flags.get flags .carry :=
  Flags.get_set _ .carry .carry _

end Arithmetic

namespace Instruction

/-- Does the instruction leave the carry flag as it is, given the field of the operand byte? -/
def passesCarry (field : BitVec 3) : Instruction → Bool
  | increment _ | decrement _ | byteGroup | wordGroup => true
  | moveToForm _ | moveToField _ | moveImmediate _ | moveByte _ | moveWord _ => true
  | moveFromSegment | moveToSegment | loadAccumulator _ | storeAccumulator _ => true
  | exchange _ | exchangeAccumulator _ | loadAddress => true
  | string operation _ => !operation.compares
  | pushRegister _ | popRegister _ | pushSegment _ | popSegment _ | pushImmediate _ => true
  | popToForm | jump _ | jumpFar | loop _ | jumpIfCounterZero | idle => true
  | unaryGroup _ => UnaryOperation.ofIndex field == .not
  | _ => false

/-- Does the instruction pass the carry on if the tables say so? -/
def agreesCarry (opcode : Byte) : Opcode → Bool
  | .modifier _ => true
  | .instruction instruction => decide (∀ field,
      Encoding.passesCarry opcode field = true → instruction.passesCarry field = true)

theorem agreesCarry_ofByte : ∀ opcode, agreesCarry opcode (Opcode.ofByte opcode) = true :=
  Opcode.forall_ofByte (by decide +kernel)

end Instruction

namespace Microprogram

open Machine Instruction

variable {α β : Type} {p : Microprogram α} {f : α → Microprogram β}

/-- The carry flag is afterwards what it was before, however the program ends. -/
def PassesCarry (p : Microprogram α) : Prop :=
  ∀ m : Machine, (p.run m).2.registers.flag .carry = m.registers.flag .carry

namespace PassesCarry

/-! ## Rules -/

theorem of_looks (h : Looks p) : PassesCarry p := by
  intro m
  rw [(h m).2]

/-- To fetch is to move the instruction pointer. -/
theorem of_reads (h : ∀ m, ∃ n, Reads Eq p n m) : PassesCarry p := by
  intro m
  obtain ⟨n, code, -, -, -, hafter, -⟩ := h m
  rw [← hafter]
  rfl

theorem bind (h : PassesCarry p) (hrest : ∀ value, PassesCarry (f value)) :
    PassesCarry (p >>= f) := by
  intro m
  have hfirst := h m
  rw [run_bind]
  rcases hrun : p.run m with ⟨result, after⟩
  rw [hrun] at hfirst
  cases result with
  | ok value => exact (hrest value after).trans hfirst
  | error cause => exact hfirst

/-- A program that looks first, and goes on with what it has seen. -/
theorem look (h : Looks p) (hrest : ∀ value, PassesCarry (f value)) : PassesCarry (p >>= f) :=
  bind (of_looks h) hrest

theorem pure (value : α) : PassesCarry (Pure.pure value : Microprogram α) := of_looks (.done value)

theorem ite {c : Prop} [Decidable c] {q : Microprogram α} (hp : PassesCarry p)
    (hq : PassesCarry q) : PassesCarry (if c then p else q) := by
  split
  case isTrue => exact hp
  case isFalse => exact hq

theorem modify {change : Registers → Registers} (h : ∀ r, (change r).flags = r.flags) :
    PassesCarry (modifyRegisters change) :=
  fun m => congrArg (Flags.get · .carry) (h m.registers)

theorem settle {n : Nat} {compute : Word → Computed n}
    (h : ∀ flags, Flags.get (compute flags).flags .carry = Flags.get flags .carry) :
    PassesCarry (settle compute) :=
  fun m => h m.registers.flags

/-! ## Parts -/

theorem fetchByte : PassesCarry fetchByte := of_reads fun m => ⟨_, .fetchByte m⟩

theorem fetchWord : PassesCarry fetchWord := of_reads fun m => ⟨_, .fetchWord m⟩

theorem fetchSigned : PassesCarry fetchSigned := of_reads fun m => ⟨_, .fetchSigned m⟩

theorem fetchPointer : PassesCarry fetchPointer := of_reads fun m => ⟨_, .fetchPointer m⟩

theorem fetchNumber (width : Width) (short : Bool) : PassesCarry (fetchNumber width short) :=
  of_reads fun m => ⟨_, reads_fetchNumber width short m⟩

theorem fetchOperands (override : Option Word) : PassesCarry (Operands.fetch override) :=
  of_reads fun m => ⟨_, reads_fetchOperands override m⟩

theorem fetchPlace (override : Option Word) : PassesCarry (fetchPlace override) :=
  bind fetchWord fun _ => look .registers fun _ => pure _

theorem setRegister (width : Width) (index : RegisterIndex) (value : BitVec width.bits) :
    PassesCarry (setRegister width index value) :=
  modify fun r => r.flags_set width index value

theorem setWord (name : WordRegister) (value : Word) :
    PassesCarry (modifyRegisters (·.setWord name value)) :=
  modify fun r => r.flags_setWord name value

theorem setSegment (name : SegmentRegister) (value : Word) :
    PassesCarry (modifyRegisters (·.setSegment name value)) :=
  modify fun r => r.flags_setSegment name value

theorem jumpBy (distance : Word) : PassesCarry (jumpBy distance) := modify fun _ => rfl

theorem jumpTo (offset : Word) : PassesCarry (jumpTo offset) := modify fun _ => rfl

theorem jumpFarTo (target : FarPointer) : PassesCarry (jumpFarTo target) := modify fun _ => rfl

theorem storeByte (place : FarPointer) (value : Byte) : PassesCarry (storeByte place value) := by
  intro m
  unfold Microprogram.storeByte run
  split
  case h_1 => rfl
  case h_2 => rfl

theorem storeWord (place : FarPointer) (value : Word) : PassesCarry (storeWord place value) :=
  bind (storeByte place _) fun _ => storeByte _ _

theorem storeData (width : Width) (place : FarPointer) (value : BitVec width.bits) :
    PassesCarry (storeData width place value) := by
  cases width with
  | byte => exact storeByte place value
  | word => exact storeWord place value

theorem storeOperand (operand : Operand) (width : Width) (value : BitVec width.bits) :
    PassesCarry (operand.store width value) := by
  cases operand with
  | register index => exact setRegister width index value
  | memory place => exact storeData width place value

theorem push (value : Word) : PassesCarry (push value) :=
  bind (modify fun _ => rfl) fun _ => look .registers fun _ => storeWord _ _

theorem pop : PassesCarry pop :=
  look .registers fun _ => look (.loadWord _) fun _ => bind (modify fun _ => rfl) fun _ => pure _

/-- To add one to an operand, or to subtract one from it. -/
theorem count (operand : Operand) (width : Width)
    {compute : BitVec width.bits → Word → Computed width.bits}
    (h : ∀ value flags, Flags.get (compute value flags).flags .carry = Flags.get flags .carry)
    (value : BitVec width.bits) : PassesCarry (do
      let result ← Microprogram.settle (compute value)
      operand.store width result) :=
  bind (settle (h value)) fun _ => storeOperand _ _ _

/-! ## Strings -/

theorem element {operation : StringOperation} (hcompares : operation.compares = false)
    (width : Width) (segment : Word) : PassesCarry (operation.element width segment) := by
  refine bind (look .registers fun r => ?_) fun _ => modify fun _ => rfl
  cases operation with
  | movs => exact look (.loadData _ _) fun _ => storeData _ _ _
  | stos => exact storeData _ _ _
  | lods => exact look (.loadData _ _) fun _ => setRegister _ _ _
  | cmps | scas => cases hcompares

theorem elements {operation : StringOperation} (hcompares : operation.compares = false)
    (width : Width) (segment : Word) (repetition : Repetition) (count : Nat) :
    PassesCarry (operation.elements width segment repetition count) := by
  induction count with
  | zero => exact pure _
  | succ count ih =>
    refine bind (element hcompares width segment) fun _ => bind (modify fun _ => rfl) fun _ => ?_
    exact look .registers fun r => ite (pure _) ih

theorem performString {operation : StringOperation} (hcompares : operation.compares = false)
    (width : Width) (override : Option Word) (repetition : Option Repetition) :
    PassesCarry (operation.perform width override repetition) := by
  refine look .registers fun r => ?_
  cases repetition with
  | none => exact element hcompares width _
  | some repetition => exact elements hcompares width _ repetition _

/-! ## Groups -/

theorem performByteGroup (opcode : Byte) (override : Option Word) :
    PassesCarry (performByteGroup opcode override) := by
  refine bind (fetchOperands _) fun operands => look (.loadOperand _ _) fun value => ?_
  refine ite (count _ .byte Arithmetic.carry_increment _) ?_
  exact ite (count _ .byte Arithmetic.carry_decrement _) (of_looks (.raise _ _))

theorem performWordGroup (opcode : Byte) (override : Option Word) :
    PassesCarry (performWordGroup opcode override) := by
  refine bind (fetchOperands _) fun operands => ?_
  cases WordOperation.ofIndex operands.field with
  | increment =>
    exact look (.loadOperand _ _) fun _ => count _ .word Arithmetic.carry_increment _
  | decrement =>
    exact look (.loadOperand _ _) fun _ => count _ .word Arithmetic.carry_decrement _
  | call =>
    refine look (.loadOperand _ _) fun _ => bind ?_ fun _ => jumpTo _
    exact look .registers fun _ => push _
  | callFar =>
    refine look (.place _ _) fun _ => look (.loadPointer _) fun _ => bind ?_ fun _ => jumpFarTo _
    exact look .registers fun _ => bind (push _) fun _ => look .registers fun _ => push _
  | jump => exact look (.loadOperand _ _) fun _ => jumpTo _
  | jumpFar => exact look (.place _ _) fun _ => look (.loadPointer _) fun _ => jumpFarTo _
  | push => exact look (.loadOperand _ _) fun _ => push _
  | undefined => exact of_looks (.raise _ _)

/-- The complement of an operand, of all operations that the field may choose. -/
theorem run_unaryGroup {width : Width} {override : Option Word} {m after : Machine}
    (hnot : UnaryOperation.ofIndex (Encoding.field m.nextByte) = .not)
    (h : (performUnaryGroup width override).run m = (.ok (), after)) :
    after.registers.flag .carry = m.registers.flag .carry := by
  obtain ⟨operands, between, hoperands, hrest⟩ := run_bind_eq_ok h
  rw [field_of_fetch hoperands, hnot] at hrest
  have hfetches := fetchOperands override m
  rw [hoperands] at hfetches
  have hcomplements : PassesCarry (do
      let value ← operands.operand.load width
      let _ ← registers
      operands.operand.store width (~~~value)) :=
    look (.loadOperand _ _) fun _ => look .registers fun _ => storeOperand _ _ _
  exact (congrArg (·.2.registers.flag .carry) hrest).symm.trans
    ((hcomplements between).trans hfetches)

/-! ## Instructions -/

theorem run_perform {instruction : Instruction} {opcode : Byte} {modifiers : Modifiers}
    {m after : Machine} (hpasses : instruction.passesCarry (Encoding.field m.nextByte) = true)
    (h : (instruction.perform opcode modifiers).run m = (.ok (), after)) :
    after.registers.flag .carry = m.registers.flag .carry := by
  have hcarry (hall : PassesCarry (instruction.perform opcode modifiers)) :
      after.registers.flag .carry = m.registers.flag .carry := by
    have hrun := hall m
    rwa [h] at hrun
  cases instruction with
  | increment name =>
    exact hcarry (look .registers fun _ => bind (settle (Arithmetic.carry_increment _)) fun _ =>
      setWord _ _)
  | decrement name =>
    exact hcarry (look .registers fun _ => bind (settle (Arithmetic.carry_decrement _)) fun _ =>
      setWord _ _)
  | byteGroup => exact hcarry (performByteGroup _ _)
  | wordGroup => exact hcarry (performWordGroup _ _)
  | unaryGroup width => exact run_unaryGroup (beq_iff_eq.mp hpasses) h
  | moveToForm width =>
    exact hcarry (bind (fetchOperands _) fun _ => look (.getRegister _ _) fun _ =>
      storeOperand _ _ _)
  | moveToField width =>
    exact hcarry (bind (fetchOperands _) fun _ => look (.loadOperand _ _) fun _ =>
      setRegister _ _ _)
  | moveImmediate width =>
    exact hcarry (bind (fetchOperands _) fun _ => bind (fetchNumber _ _) fun _ =>
      storeOperand _ _ _)
  | moveByte name => exact hcarry (bind fetchByte fun _ => modify fun r => r.flags_setByte _ _)
  | moveWord name => exact hcarry (bind fetchWord fun _ => setWord _ _)
  | moveFromSegment =>
    exact hcarry (bind (fetchOperands _) fun _ => look .registers fun _ => storeOperand _ _ _)
  | moveToSegment =>
    exact hcarry (bind (fetchOperands _) fun _ => look (.loadOperand _ _) fun _ => setSegment _ _)
  | loadAccumulator width =>
    exact hcarry (bind (fetchPlace _) fun _ => look (.loadData _ _) fun _ => setRegister _ _ _)
  | storeAccumulator width =>
    exact hcarry (bind (fetchPlace _) fun _ => look (.getRegister _ _) fun _ => storeData _ _ _)
  | exchange width =>
    refine hcarry (bind (fetchOperands _) fun _ => look (.loadOperand _ _) fun _ => ?_)
    exact look (.getRegister _ _) fun _ => bind (storeOperand _ _ _) fun _ => setRegister _ _ _
  | exchangeAccumulator name => exact hcarry (modify fun r => r.flags_setWord _ _)
  | loadAddress =>
    exact hcarry (bind (fetchOperands _) fun _ => look (.place _ _) fun _ => setRegister _ _ _)
  | string operation width => exact hcarry (performString ((Bool.not_eq_true' _).mp hpasses) _ _ _)
  | pushRegister name | pushSegment name => exact hcarry (look .registers fun _ => push _)
  | popRegister name => exact hcarry (bind pop fun _ => setWord _ _)
  | popSegment name => exact hcarry (bind pop fun _ => setSegment _ _)
  | pushImmediate short => exact hcarry (bind (fetchNumber _ _) fun _ => push _)
  | popToForm => exact hcarry (bind (fetchOperands _) fun _ => bind pop fun _ => storeOperand _ _ _)
  | jump short => exact hcarry (bind (fetchNumber _ _) fun _ => jumpBy _)
  | jumpFar => exact hcarry (bind fetchPointer fun _ => jumpFarTo _)
  | loop condition =>
    refine hcarry (bind fetchSigned fun _ => bind (modify fun _ => rfl) fun _ => ?_)
    exact look .registers fun _ => ite (jumpBy _) (pure _)
  | jumpIfCounterZero =>
    exact hcarry (bind fetchSigned fun _ => look .registers fun _ => ite (jumpBy _) (pure _))
  | idle => exact hcarry (pure _)
  | _ => cases hpasses

end PassesCarry

end Microprogram

namespace Machine

open Instruction

variable {m next : Machine}

/-- A step that passes the carry on leaves the carry flag as it was. -/
theorem PassesTo.carry_eq (h : m.PassesTo next) :
    next.registers.flag .carry = m.registers.flag .carry := by
  obtain ⟨⟨opcode, hbegins, hpasses⟩, hstep⟩ := h
  have hcompletes : m.Completes := .inl (by rw [hstep])
  obtain ⟨instruction, modifiers, hopcode, -, hperform⟩ := exists_performed hcompletes hbegins
  have hagrees := agreesCarry_ofByte opcode
  rw [hopcode] at hagrees
  have hcarry := Microprogram.PassesCarry.run_perform (m := m.behindOpcode)
    (by
      rw [nextByte_behindOpcode]
      exact of_decide_eq_true hagrees _ hpasses) hperform
  rw [hstep] at hcarry
  exact hcarry

/-- So do any number of such steps, one after the other. -/
theorem Passes.carry_eq (h : m.Passes next) :
    next.registers.flag .carry = m.registers.flag .carry := by
  induction h with
  | refl => rfl
  | tail _ hstep ih => exact hstep.carry_eq.trans ih

end Machine

end CmStream
