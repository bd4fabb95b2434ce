import CmStream.Proofs.Machine.Plain

/-!
# What instructions do is plain

Every instruction that does not transfer control is, behind its last byte, a plain program. Each of
the parts that instructions share is plain, and so is what is put together from them.
-/

namespace CmStream

namespace Registers

/-! ## The instruction pointer and the registers with names -/

variable (r : Registers) (ip : Word)

theorem word_with_ip (name : WordRegister) : { r with ip := ip }.word name = r.word name := by
  cases name <;> rfl

theorem setWord_with_ip (name : WordRegister) (value : Word) :
    { r with ip := ip }.setWord name value = { r.setWord name value with ip := ip } := by
  cases name <;> rfl

theorem byte_with_ip (name : ByteRegister) : { r with ip := ip }.byte name = r.byte name := by
  cases name <;> rfl

theorem setByte_with_ip (name : ByteRegister) (value : Byte) :
    { r with ip := ip }.setByte name value = { r.setByte name value with ip := ip } := by
  cases name <;> rfl

theorem segment_with_ip (name : SegmentRegister) :
    { r with ip := ip }.segment name = r.segment name := by
  cases name <;> rfl

theorem setSegment_with_ip (name : SegmentRegister) (value : Word) :
    { r with ip := ip }.setSegment name value = { r.setSegment name value with ip := ip } := by
  cases name <;> rfl

theorem get_with_ip (width : Width) (index : RegisterIndex) :
    { r with ip := ip }.get width index = r.get width index := by
  cases width with
  | byte => exact byte_with_ip r ip _
  | word => exact word_with_ip r ip _

theorem set_with_ip (width : Width) (index : RegisterIndex) (value : BitVec width.bits) :
    { r with ip := ip }.set width index value = { r.set width index value with ip := ip } := by
  cases width with
  | byte => exact setByte_with_ip r ip _ value
  | word => exact setWord_with_ip r ip _ value

/-! ## Flags and the registers with names -/

theorem flags_setWord (name : WordRegister) (value : Word) :
    (r.setWord name value).flags = r.flags := by
  cases name <;> rfl

theorem flags_setByte (name : ByteRegister) (value : Byte) :
    (r.setByte name value).flags = r.flags :=
  flags_setWord r _ _

theorem flags_setSegment (name : SegmentRegister) (value : Word) :
    (r.setSegment name value).flags = r.flags := by
  cases name <;> rfl

theorem flags_set (width : Width) (index : RegisterIndex) (value : BitVec width.bits) :
    (r.set width index value).flags = r.flags := by
  cases width with
  | byte => exact flags_setByte r _ value
  | word => exact flags_setWord r _ value

end Registers

namespace Microprogram

open Instruction

namespace Plain

variable {α : Type}

/-! ## Parts -/

theorem ite {c : Prop} [Decidable c] {p q : Microprogram α} (hp : Plain p) (hq : Plain q) :
    Plain (if c then p else q) := by
  split
  case isTrue => exact hp
  case isFalse => exact hq

theorem forM {β : Type} {xs : List β} {f : β → Microprogram PUnit} (h : ∀ x, Plain (f x)) :
    Plain (xs.forM f) := by
  induction xs with
  | nil => exact done _
  | cons x xs ih => exact bind (h x) fun _ => ih

/-- A change of the registers that neither depends on the instruction pointer nor moves it. -/
theorem modify {change : Registers → Registers}
    (blind : ∀ r ip, change { r with ip := ip } = { change r with ip := ip })
    (settled : ∀ r, Flags.Settled r.flags (change r).flags) : Plain (modifyRegisters change) := by
  refine alter (fun r => ((), change r)) (fun r ip => ?_) settled
  rw [blind]

theorem settle {n : Nat} {compute : Word → Computed n}
    (settled : ∀ flags, Flags.Settled flags (compute flags).flags) :
    Plain (settle compute) := by
  refine alter
    (fun r => ((compute r.flags).value, { r with flags := (compute r.flags).flags }))
    (fun _ _ => rfl) fun r => ?_
  exact settled r.flags

theorem loadWord (place : FarPointer) : Plain (loadWord place) :=
  bind (load place) fun _ => bind (load _) fun _ => done _

theorem storeWord (place : FarPointer) (value : Word) : Plain (storeWord place value) :=
  bind (store place _) fun _ => store _ _

theorem loadData (width : Width) (place : FarPointer) : Plain (loadData width place) := by
  cases width with
  | byte => exact load place
  | word => exact loadWord place

theorem storeData (width : Width) (place : FarPointer) (value : BitVec width.bits) :
    Plain (storeData width place value) := by
  cases width with
  | byte => exact store place value
  | word => exact storeWord place value

theorem loadPointer (place : FarPointer) : Plain (loadPointer place) :=
  bind (loadWord place) fun _ => bind (loadWord _) fun _ => done _

theorem getRegister (width : Width) (index : RegisterIndex) : Plain (getRegister width index) := by
  refine inspect (fun r ip => ?_) fun r => done _
  rw [Registers.get_with_ip]

theorem setRegister (width : Width) (index : RegisterIndex) (value : BitVec width.bits) :
    Plain (setRegister width index value) :=
  modify (fun r ip => r.set_with_ip ip width index value) fun r =>
    .of_eq (r.flags_set width index value)

theorem setWord (name : WordRegister) (value : Word) :
    Plain (modifyRegisters (·.setWord name value)) :=
  modify (fun r ip => r.setWord_with_ip ip name value) fun r => .of_eq (r.flags_setWord name value)

theorem setByte (name : ByteRegister) (value : Byte) :
    Plain (modifyRegisters (·.setByte name value)) :=
  modify (fun r ip => r.setByte_with_ip ip name value) fun r => .of_eq (r.flags_setByte name value)

theorem setSegment (name : SegmentRegister) (value : Word) :
    Plain (modifyRegisters (·.setSegment name value)) :=
  modify (fun r ip => r.setSegment_with_ip ip name value) fun r =>
    .of_eq (r.flags_setSegment name value)

theorem loadOperand (operand : Operand) (width : Width) : Plain (operand.load width) := by
  cases operand with
  | register index => exact getRegister width index
  | memory place => exact loadData width place

theorem storeOperand (operand : Operand) (width : Width) (value : BitVec width.bits) :
    Plain (operand.store width value) := by
  cases operand with
  | register index => exact setRegister width index value
  | memory place => exact storeData width place value

theorem place (operand : Operand) (opcode : Byte) : Plain (operand.place opcode) := by
  cases operand with
  | register index => exact raise _ _
  | memory place => exact done _

theorem push (value : Word) : Plain (push value) := by
  refine bind (modify (fun _ _ => rfl) fun _ => .refl _) fun _ => ?_
  exact inspect (fun _ _ => rfl) fun r => storeWord _ _

theorem pop : Plain pop := by
  refine inspect (fun _ _ => rfl) fun r => bind (loadWord _) fun _ => ?_
  exact bind (modify (fun _ _ => rfl) fun _ => .refl _) fun _ => done _

theorem release (count : Word) : Plain (release count) :=
  modify (fun _ _ => rfl) fun _ => .refl _

/-! ## Arithmetic -/

/-- What is left of an operation once both of its operands are known. -/
theorem combine (operation : Arithmetic.Operation) {width : Width} (a b : BitVec width.bits)
    {keep : BitVec width.bits → Microprogram Unit} (hkeep : ∀ value, Plain (keep value)) :
    Plain (do
      let value ← Microprogram.settle (operation.compute a b)
      if operation.keepsResult then keep value) :=
  bind (settle fun flags => Arithmetic.settled_compute a b flags operation) fun value =>
    ite (hkeep value) (done _)

/-- What is left of a shift once its operand and its count are known. -/
theorem shift (width : Width) (shift : Shift) (operand : Operand) (count : Byte) : Plain (do
    let value ← operand.load width
    let shifted ← Microprogram.settle (shift.compute value count)
    operand.store width shifted) :=
  bind (loadOperand _ _) fun value =>
    bind (settle fun flags => shift.settled_compute value count flags) fun _ =>
      storeOperand _ _ _

theorem performAdjust (adjustment : DecimalAdjustment) : Plain (performAdjust adjustment) := by
  refine inspect (fun r ip => ?_) fun r => ?_
  · simp only [Registers.byte_with_ip]
  · cases adjustment with
    | packedSum =>
      exact bind (settle (Decimal.settled_adjustSum _)) fun _ => setRegister _ _ _
    | packedDifference =>
      exact bind (settle (Decimal.settled_adjustDifference _)) fun _ => setRegister _ _ _
    | unpackedSum =>
      exact bind (settle (Decimal.settled_adjustUnpackedSum _)) fun _ => setRegister _ _ _
    | unpackedDifference =>
      exact bind (settle (Decimal.settled_adjustUnpackedDifference _)) fun _ => setRegister _ _ _

/-- What is left of splitting digits once the base is known. -/
theorem splitDigits (base : Byte) : Plain (do
    let r ← registers
    match Decimal.split? base (r.byte .al) r.flags with
    | some computed => setRegisters { r with ax := computed.value, flags := computed.flags }
    | none => giveUp .divideError) := by
  by_cases hbase : base = 0
  · refine inspect (fun r ip => ?_) fun r => ?_
    · simp only [Decimal.split?, hbase, if_true]
    · simp only [Decimal.split?, hbase, if_true]
      exact raise _ _
  · simp only [Decimal.split?, hbase, if_false]
    refine alter (fun r => ((), { r with
      ax := Word.ofBytes (r.byte .al % base) (r.byte .al / base)
      flags := Flags.describe r.flags (r.byte .al % base) })) (fun r ip => ?_) fun r => ?_
    · rw [Registers.byte_with_ip]
    · exact (Flags.Settled.refl _).describe _

theorem storeProduct (width : Width) (product : Product.Halves width.bits) :
    Plain (storeProduct width product) := by
  refine modify (fun r ip => ?_) fun r => ?_
  · simp only [Registers.set_with_ip]
  · have hkept : ((r.set width accumulator product.lower).set width (extension width)
        product.upper).flags = r.flags := by
      rw [Registers.flags_set, Registers.flags_set]
    exact (Flags.Settled.of_eq hkept).trans (product.settled_setFlags _)

theorem storeQuotient (width : Width) (result : Option (Quotient.Result width.bits)) :
    Plain (storeQuotient width result) := by
  cases result with
  | none => exact raise _ _
  | some result =>
    refine modify (fun r ip => ?_) fun r => .of_eq ?_
    · simp only [Registers.set_with_ip]
    · rw [Registers.flags_set, Registers.flags_set]

theorem setProductFlags {n : Nat} (product : Product.Halves n) :
    Plain (modifyRegisters fun r => { r with flags := product.setFlags r.flags }) :=
  modify (fun _ _ => rfl) fun r => product.settled_setFlags r.flags

/-! ## The stack -/

theorem performPushAll : Plain performPushAll := by
  refine inspect (fun r ip => ?_) fun r => forM fun name => push _
  simp only [Registers.word_with_ip]

theorem performPopAll : Plain performPopAll :=
  forM fun _ => bind pop fun value => ite (setWord _ value) (done _)

theorem copyFramePointers (count : Nat) : Plain (copyFramePointers count) := by
  induction count with
  | zero => exact done _
  | succ count ih =>
    refine bind (modify (fun _ _ => rfl) fun _ => .refl _) fun _ => ?_
    refine inspect (fun _ _ => rfl) fun r => bind (loadWord _) fun value => ?_
    exact bind (push value) fun _ => ih

theorem performLeave : Plain performLeave := by
  refine bind (modify (fun _ _ => rfl) fun _ => .refl _) fun _ => bind pop fun frame => ?_
  exact modify (fun _ _ => rfl) fun _ => .refl _

/-- What is left of building a frame once its size and its level are known. -/
theorem enter (size : Word) (level : Nat) : Plain (do
    Microprogram.push (← registers).bp
    let frame := (← registers).sp
    if 0 < level then
      Instruction.copyFramePointers (level - 1)
      Microprogram.push frame
    modifyRegisters fun r => { r with bp := frame, sp := r.sp - size }) := by
  refine inspect (fun _ _ => rfl) fun r => bind (push r.bp) fun _ => ?_
  refine inspect (fun _ _ => rfl) fun r => ?_
  have hframe : Plain (modifyRegisters fun r' => { r' with bp := r.sp, sp := r'.sp - size }) :=
    modify (fun _ _ => rfl) fun _ => .refl _
  exact ite (bind (copyFramePointers _) fun _ => bind (push _) fun _ => hframe) hframe

theorem loadFlags (value : Word) :
    Plain (modifyRegisters fun r => { r with flags := Flags.load value }) :=
  modify (fun _ _ => rfl) fun r => Flags.settled_load r.flags value

/-! ## Strings -/

theorem handle (operation : StringOperation) (width : Width) (segment : Word) :
    Plain (operation.handle width segment) := by
  refine inspect (fun r ip => ?_) fun r => ?_
  · simp only [Registers.get_with_ip]
  · cases operation with
    | movs => exact bind (loadData _ _) fun _ => storeData _ _ _
    | cmps =>
      refine bind (loadData _ _) fun _ => bind (loadData _ _) fun _ => ?_
      exact bind (settle fun flags => Arithmetic.settled_subtract _ _ flags _) fun _ => done _
    | stos => exact storeData _ _ _
    | lods => exact bind (loadData _ _) fun _ => setRegister _ _ _
    | scas =>
      refine bind (loadData _ _) fun _ => ?_
      exact bind (settle fun flags => Arithmetic.settled_subtract _ _ flags _) fun _ => done _

theorem element (operation : StringOperation) (width : Width) (segment : Word) :
    Plain (operation.element width segment) :=
  bind (handle operation width segment) fun _ => modify (fun _ _ => rfl) fun _ => .refl _

theorem elements (operation : StringOperation) (width : Width) (segment : Word)
    (repetition : Repetition) (count : Nat) :
    Plain (operation.elements width segment repetition count) := by
  induction count with
  | zero => exact done _
  | succ count ih =>
    refine bind (element operation width segment) fun _ => ?_
    refine bind (modify (fun _ _ => rfl) fun _ => .refl _) fun _ => ?_
    exact inspect (fun _ _ => rfl) fun r => ite (done _) ih

theorem performString (operation : StringOperation) (width : Width) (override : Option Word)
    (repetition : Option Repetition) : Plain (operation.perform width override repetition) := by
  refine inspect (fun _ _ => rfl) fun r => ?_
  cases repetition with
  | none => exact element _ _ _
  | some repetition => exact elements _ _ _ _ _

theorem performTranslate (override : Option Word) : Plain (performTranslate override) := by
  refine inspect (fun r ip => ?_) fun r => bind (loadData _ _) fun _ => setRegister _ _ _
  simp only [Registers.byte_with_ip]

end Plain

end Microprogram

end CmStream
