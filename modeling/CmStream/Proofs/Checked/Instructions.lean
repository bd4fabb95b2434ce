import CmStream.Checked.Instruction
import CmStream.Proofs.Checked.Arithmetic

/-!
# Instructions are defined

No computation in an instruction leaves its numbers, so an instruction with all of them checked is
the instruction, lifted. A computation comes in between two effects of the instruction, whose values
can be any at all: that its operands are in range is due to their width alone.
-/

namespace CmStream

namespace Checked

open Microprogram Instruction

variable {α β : Type}

namespace Program

/-! ## Lifting -/

theorem liftM_eq_lift (p : Microprogram α) : (liftM p : Program α) = OptionT.lift p := rfl

theorem lift_ite (c : Prop) [Decidable c] (p q : Microprogram α) :
    (OptionT.lift (if c then p else q) : Program α)
      = if c then OptionT.lift p else OptionT.lift q :=
  apply_ite OptionT.lift c p q

theorem lift_discard (p : Microprogram α) :
    (OptionT.lift (discard p) : Program Unit) = discard (OptionT.lift p) := by
  simp only [discard, Functor.discard, LawfulFunctor.map_const, Function.comp_apply,
    map_eq_pure_bind, OptionT.lift_bind, OptionT.lift_pure]

theorem ofOption_some (value : α) : ofOption (some value) = pure value := rfl

/-- Flags and results of a computation that is defined are taken over without a check. -/
theorem settle_eq_lift {n : Nat} {checked : Word → Option (Computed n)}
    {compute : Word → Computed n} (h : ∀ flags, checked flags = some (compute flags)) :
    Program.settle checked = OptionT.lift (Microprogram.settle compute) := by
  unfold Program.settle Microprogram.settle
  simp only [h]
  rfl

section

variable {n : Nat} (hn : n ≤ 16) (a b : BitVec n)

include hn

theorem settle_compute (operation : Arithmetic.Operation) :
    Program.settle (compute operation a b)
      = OptionT.lift (Microprogram.settle (operation.compute a b)) :=
  settle_eq_lift (compute_eq_some hn operation a b)

theorem settle_difference : Program.settle (difference a b false)
    = OptionT.lift (Microprogram.settle (Arithmetic.subtract a b false)) :=
  settle_eq_lift (difference_eq_some hn a b false)

theorem settle_increment :
    Program.settle (increment a) = OptionT.lift (Microprogram.settle (Arithmetic.increment a)) :=
  settle_eq_lift (increment_eq_some hn a)

theorem settle_decrement :
    Program.settle (decrement a) = OptionT.lift (Microprogram.settle (Arithmetic.decrement a)) :=
  settle_eq_lift (decrement_eq_some hn a)

theorem settle_shift (shift : CmStream.Shift) (count : Byte) :
    Program.settle (Shift.compute shift a count)
      = OptionT.lift (Microprogram.settle (shift.compute a count)) :=
  settle_eq_lift (Shift.compute_eq_some hn shift a count)

end

end Program

open Program

variable {override : Option Word}

/-! ## Sums, differences and shifts -/

theorem performArithmetic_eq_lift (operation : Arithmetic.Operation) (direction : Direction)
    (width : Width) : performArithmetic operation direction width override
      = OptionT.lift (Instruction.performArithmetic operation direction width override) := by
  cases direction with
  | toForm | toField | toAccumulator =>
    simp only [performArithmetic, Instruction.performArithmetic, settle_compute width.bits_le,
      liftM_eq_lift, OptionT.lift_bind, lift_ite, OptionT.lift_pure]

theorem performArithmeticGroup_eq_lift (width : Width) (short : Bool) :
    performArithmeticGroup width short override
      = OptionT.lift (Instruction.performArithmeticGroup width short override) := by
  simp only [performArithmeticGroup, Instruction.performArithmeticGroup,
    settle_compute width.bits_le, liftM_eq_lift, OptionT.lift_bind, lift_ite, OptionT.lift_pure]

theorem performByteGroup_eq_lift (opcode : Byte) : performByteGroup opcode override
    = OptionT.lift (Instruction.performByteGroup opcode override) := by
  have hincrement := settle_increment (Width.bits_le .byte)
  have hdecrement := settle_decrement (Width.bits_le .byte)
  simp only [performByteGroup, Instruction.performByteGroup, hincrement, hdecrement,
    liftM_eq_lift, OptionT.lift_bind, lift_ite]

theorem performWordGroup_eq_lift (opcode : Byte) : performWordGroup opcode override
    = OptionT.lift (Instruction.performWordGroup opcode override) := by
  have hincrement := settle_increment (Width.bits_le .word)
  have hdecrement := settle_decrement (Width.bits_le .word)
  unfold performWordGroup Instruction.performWordGroup
  rw [OptionT.lift_bind, liftM_eq_lift]
  congr 1
  funext operands
  cases WordOperation.ofIndex operands.field <;>
    simp only [liftM_eq_lift, OptionT.lift_bind, hincrement, hdecrement]

/-- What is computed from a register is defined if it is for every value and all flags. -/
theorem performOnRegister_eq_lift (name : WordRegister)
    {checked : Word → Word → Option (Computed 16)} {compute : Word → Word → Computed 16}
    (h : ∀ value flags, checked value flags = some (compute value flags)) :
    performOnRegister name checked = OptionT.lift (do
      let r ← registers
      let value ← Microprogram.settle (compute (r.word name))
      modifyRegisters (·.setWord name value)) := by
  unfold performOnRegister
  simp only [settle_eq_lift (h _), liftM_eq_lift, OptionT.lift_bind]

theorem performShiftGroup_eq_lift (width : Width) (source : CountSource) :
    performShiftGroup width source override
      = OptionT.lift (Instruction.performShiftGroup width source override) := by
  cases source <;>
    simp only [performShiftGroup, Instruction.performShiftGroup, settle_shift width.bits_le,
      liftM_eq_lift, OptionT.lift_bind, pure_bind]

/-! ## Products and quotients -/

theorem performMultiplyBy_eq_lift (short : Bool) : performMultiplyBy short override
    = OptionT.lift (Instruction.performMultiplyBy short override) := by
  have hproduct := signedProduct_eq_some (Width.bits_le .word)
  simp only [performMultiplyBy, Instruction.performMultiplyBy, hproduct, ofOption_some, pure_bind,
    liftM_eq_lift, OptionT.lift_bind]

theorem performUnaryGroup_eq_lift (width : Width) : performUnaryGroup width override
    = OptionT.lift (Instruction.performUnaryGroup width override) := by
  have hproduct := product_eq_some width.bits_pos
  have hsignedProduct := signedProduct_eq_some width.bits_le
  have hquotient := quotient?_eq_some width.bits_le
  have hsignedQuotient := signedQuotient?_eq_some width.bits_le
  unfold performUnaryGroup Instruction.performUnaryGroup
  simp only [OptionT.lift_bind, liftM_eq_lift, hproduct, hsignedProduct, hquotient,
    hsignedQuotient, ofOption_some, pure_bind, settle_difference width.bits_le]
  congr 1; funext operands
  congr 1; funext value
  congr 1; funext r
  cases UnaryOperation.ofIndex operands.field with
  | test => simp only [OptionT.lift_bind, lift_discard]
  | neg => simp only [OptionT.lift_bind]
  | not | mul | imul | div | idiv => rfl

/-- The divisor is a byte of the instruction. If it is zero, the instruction gives up before it
divides. -/
theorem performSplitDigits_eq_lift :
    performSplitDigits = OptionT.lift Instruction.performSplitDigits := by
  unfold performSplitDigits Instruction.performSplitDigits
  simp only [split?_eq_some, ofOption_some, pure_bind, liftM_eq_lift, OptionT.lift_bind]
  congr 1; funext base
  congr 1; funext r
  cases Decimal.split? base (r.byte .al) r.flags with
  | some computed => rfl
  | none => rfl

/-! ## Comparisons of strings -/

section

variable (operation : StringOperation) (width : Width) (sourceSegment : Word)

theorem handle_eq_lift : handle operation width sourceSegment
    = OptionT.lift (operation.handle width sourceSegment) := by
  unfold handle StringOperation.handle
  simp only [OptionT.lift_bind, liftM_eq_lift, settle_difference width.bits_le]
  congr 1; funext r
  cases operation with
  | movs | stos | lods => simp only [OptionT.lift_bind]
  | cmps | scas => simp only [OptionT.lift_bind, lift_discard]

theorem element_eq_lift : element operation width sourceSegment
    = OptionT.lift (operation.element width sourceSegment) := by
  unfold element StringOperation.element
  rw [handle_eq_lift, OptionT.lift_bind]
  rfl

/-- All elements of a string are handled as the first one is. -/
theorem elements_eq_lift (repetition : Repetition) (count : Nat) :
    elements operation width sourceSegment repetition count
      = OptionT.lift (operation.elements width sourceSegment repetition count) := by
  induction count with
  | zero => rw [elements, StringOperation.elements, OptionT.lift_pure]
  | succ count ih =>
    simp only [elements, StringOperation.elements, element_eq_lift, ih, liftM_eq_lift,
      OptionT.lift_bind, lift_ite, OptionT.lift_pure]

theorem performString_eq_lift (repetition : Option Repetition) :
    performString operation width override repetition
      = OptionT.lift (operation.perform width override repetition) := by
  unfold performString StringOperation.perform
  simp only [OptionT.lift_bind, liftM_eq_lift]
  congr 1; funext r
  cases repetition with
  | none => exact element_eq_lift operation width _
  | some repetition => exact elements_eq_lift operation width _ repetition _

end

/-! ## All instructions -/

/-- An instruction of any kind is the instruction without checks, lifted. -/
theorem perform_eq_lift (instruction : Instruction) (opcode : Byte) (modifiers : Modifiers) :
    perform instruction opcode modifiers
      = OptionT.lift (instruction.perform opcode modifiers) := by
  cases instruction with
  | arithmetic operation direction width =>
    exact performArithmetic_eq_lift operation direction width
  | arithmeticGroup width short => exact performArithmeticGroup_eq_lift width short
  | increment name => exact performOnRegister_eq_lift name (increment_eq_some (Width.bits_le .word))
  | decrement name => exact performOnRegister_eq_lift name (decrement_eq_some (Width.bits_le .word))
  | splitDigits => exact performSplitDigits_eq_lift
  | multiplyBy short => exact performMultiplyBy_eq_lift short
  | unaryGroup width => exact performUnaryGroup_eq_lift width
  | byteGroup => exact performByteGroup_eq_lift opcode
  | wordGroup => exact performWordGroup_eq_lift opcode
  | shiftGroup width source => exact performShiftGroup_eq_lift width source
  | string operation width => exact performString_eq_lift operation width _
  | _ => rfl

theorem count_eq_some (counted : Nat) (h : counted ≤ maxModifiers) :
    Number.add 64 counted 1 = some (counted + 1) := by
  refine Number.add_eq_some ?_
  simp only [maxModifiers] at h
  omega

/-- There are as many turns as modifiers can be counted before there is one too many. -/
theorem fetch_eq_lift {allowed counted : Nat} (modifiers : Modifiers)
    (h : counted + allowed = maxModifiers) :
    fetch (allowed + 1) counted modifiers = OptionT.lift (Instruction.fetch allowed modifiers) := by
  induction allowed generalizing counted modifiers with
  | zero =>
    have hcount := count_eq_some counted (Nat.le_of_eq h)
    have hmany : maxModifiers < counted + 1 := by omega
    unfold fetch Instruction.fetch
    simp only [OptionT.lift_bind, liftM_eq_lift, hcount, ofOption_some, pure_bind, if_pos hmany]
    congr 1; funext byte
    cases Opcode.ofByte byte with
    | instruction instruction => exact (OptionT.lift_pure _).symm
    | modifier modifier => rfl
  | succ allowed ih =>
    have hcount := count_eq_some counted (by omega)
    have hfew : ¬ maxModifiers < counted + 1 := by omega
    unfold fetch Instruction.fetch
    simp only [OptionT.lift_bind, liftM_eq_lift, hcount, ofOption_some, pure_bind, if_neg hfew]
    congr 1; funext byte
    cases Opcode.ofByte byte with
    | instruction instruction => exact (OptionT.lift_pure _).symm
    | modifier modifier =>
      simp only [OptionT.lift_bind]
      congr 1; funext r
      exact ih _ (by omega)

/-- So is fetching an instruction and performing it. -/
theorem fetchAndPerform_eq_lift : fetchAndPerform = OptionT.lift Instruction.fetchAndPerform := by
  have hfetch : fetch (maxModifiers + 1) 0 Modifiers.none = _ :=
    fetch_eq_lift Modifiers.none (Nat.zero_add maxModifiers)
  simp only [fetchAndPerform, Instruction.fetchAndPerform, hfetch, perform_eq_lift,
    OptionT.lift_bind, OptionT.lift_pure]

end Checked

end CmStream
