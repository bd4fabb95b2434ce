import CmStream.Proofs.Arithmetic.Combining

/-!
# Comparisons and the jumps behind them

A conditional jump looks at flags, and these tell how two numbers compare that have been subtracted
one from the other. Every relation that a jump can ask for is one between the numbers themselves,
whatever the width and however the comparison is encoded.
-/

namespace CmStream

open Arithmetic Encoding Instruction Microprogram

namespace Arithmetic

instance (n : Nat) (x : Int) : Decidable (IsUnsigned n x) :=
  decidable_of_iff ((BitVec.ofInt n x).toNat = x) (isUnsigned_iff rfl).symm

instance (n : Nat) (x : Int) : Decidable (IsSigned n x) :=
  decidable_of_iff ((BitVec.ofInt n x).toInt = x) (isSigned_iff rfl).symm

end Arithmetic

namespace Condition

variable {n : Nat} {a b : BitVec n}

/-- What a conditional jump asks of two numbers that have been compared. -/
def Relates (condition : Condition) {n : Nat} (a b : BitVec n) : Prop :=
  match condition with
  | overflow => ¬ IsSigned n (a.toInt - b.toInt)
  | carry => a.toNat < b.toNat
  | zero => a = b
  | carryOrZero => a.toNat ≤ b.toNat
  | sign => (a - b).getLsbD (n - 1) = true
  | parity => (List.range 8).countP (a - b).getLsbD % 2 = 0
  | less => a.toInt < b.toInt
  | lessOrEqual => a.toInt ≤ b.toInt

instance (condition : Condition) {n : Nat} (a b : BitVec n) : Decidable (condition.Relates a b) :=
  match condition with
  | overflow => inferInstanceAs (Decidable (¬ _))
  | carry => inferInstanceAs (Decidable (_ < _))
  | zero => inferInstanceAs (Decidable (_ = _))
  | carryOrZero => inferInstanceAs (Decidable (_ ≤ _))
  | sign => inferInstanceAs (Decidable (_ = _))
  | parity => inferInstanceAs (Decidable (_ = _))
  | less => inferInstanceAs (Decidable (_ < _))
  | lessOrEqual => inferInstanceAs (Decidable (_ ≤ _))

/-- Flags that a difference has left tell how its operands compare. -/
theorem holds_iff (condition : Condition) (hn : 4 < n) {r : Registers} {flags : Word}
    (hflags : r.flags = (subtract a b false flags).flags) :
    condition.holds r = true ↔ condition.Relates a b := by
  have hreport := report_subtract a b false flags hn
  rw [← hflags] at hreport
  have hvalue : a - b - ofCarry n false = a - b := BitVec.sub_zero _
  rw [hvalue] at hreport
  have hless : (r.flag .sign != r.flag .overflow) = true ↔ a.toInt < b.toInt := by
    unfold Registers.flag
    rw [hflags, sign_bne_overflow_subtract a b flags (by omega), decide_eq_true_iff]
  have hzero : r.flag .zero = true ↔ a = b := by
    refine hreport.zero.trans (BitVec.sub_eq_iff_eq_add.trans ?_)
    rw [show (0 : BitVec n) + b = b from BitVec.zero_add b]
  have hcarry : r.flag .carry = true ↔ a.toNat < b.toNat := by
    have hborrow := isUnsigned_difference a b false
    exact hreport.carry.trans ((not_congr hborrow).trans not_not)
  cases condition with
  | overflow =>
    have hover := hreport.overflow
    rwa [Bool.toNat_false, Int.natCast_zero, Int.sub_zero] at hover
  | carry => exact hcarry
  | zero => exact hzero
  | carryOrZero =>
    show (r.flag .carry || r.flag .zero) = true ↔ a.toNat ≤ b.toNat
    rw [Bool.or_eq_true, hcarry, hzero, Nat.le_iff_lt_or_eq, BitVec.toNat_inj]
  | sign => exact hreport.sign
  | parity => exact hreport.parity
  | less => exact hless
  | lessOrEqual =>
    show (r.flag .zero || (r.flag .sign != r.flag .overflow)) = true ↔ a.toInt ≤ b.toInt
    rw [Bool.or_eq_true, hless, hzero, Int.le_iff_lt_or_eq, BitVec.toInt_inj, or_comm]

end Condition

namespace Machine

variable {m : Machine} {operation : Arithmetic.Operation} {width : Width}
  {a b : BitVec width.bits} {destination : Operand} {condition : Condition} {negated : Bool}

/-- The machine behind a short jump, and beyond by the distance if the jump is taken. -/
def behindJump (m : Machine) (taken : Bool) : Machine :=
  m.moved (m.registers.ip + BitVec.ofNat 16 (m.modifiers.length + 2)
    + if taken then (m.tailAt 0).signExtend 16 else 0)

/-- A conditional jump changes nothing but the instruction pointer. -/
theorem step_jumpIf (hbegins : m.opcode? = some (jumpIf condition negated).relativeOpcode)
    (hcompletes : m.Completes) :
    m.step.2 = m.behindJump (condition.holds m.registers != negated) := by
  have hjump : Opcode.ofByte (jumpIf condition negated).relativeOpcode
      = .instruction (jumpIf condition negated) := by
    cases condition <;> cases negated <;> rfl
  obtain ⟨modifiers, -, hperform⟩ := exists_performed_of_ofByte hcompletes hbegins hjump
  obtain ⟨distance, between, hdistance, hrest⟩ := run_bind_eq_ok hperform
  obtain ⟨rfl, rfl⟩ := seen_fetchSigned hdistance
  have hpast : m.behindOpcode.past 1 = m.past (m.modifiers.length + 2) :=
    (past_add (m.modifiers.length + 1) 1 m).symm
  have hholds : condition.holds (m.past (m.modifiers.length + 2)).registers
      = condition.holds m.registers := by
    cases condition <;> rfl
  rw [nextByte_behindOpcode, hpast, run_bind_of_ok _ run_registers, hholds] at hrest
  unfold behindJump
  split at hrest
  case isTrue htaken =>
    rw [if_pos htaken]
    exact (congrArg Prod.snd hrest).symm
  case isFalse htaken =>
    rw [if_neg htaken, show (0 : Word) = 0#16 from rfl, BitVec.add_zero]
    exact (congrArg Prod.snd hrest).symm

/-- A jump behind a comparison, or behind a subtraction, is taken just if its relation holds between
the numbers that have been compared, or does not hold if the jump is a negated one. Of an addition
the flags tell what they tell of a difference: whether the sum is a number of the width, unsigned,
signed and in its lowest four bits, and how it looks. -/
theorem step_compare_jump (hcombines : m.Combines operation width a b destination)
    (hcontinued : m.step.1 = .continued) :
    ((operation = .cmp ∨ operation = .sub) →
        (m.step.2.registers.flag .auxiliary = true ↔ a.toNat % 16 < b.toNat % 16)
          ∧ ∀ condition negated,
            m.step.2.opcode? = some (jumpIf condition negated).relativeOpcode →
            m.step.2.step.1 = .continued →
            m.step.2.step.2
              = m.step.2.behindJump (decide (condition.Relates a b) != negated))
      ∧ ((operation = .add ∨ operation = .adc) →
        let carry := if operation = .adc then m.registers.flag .carry else false
        Flags.Report m.step.2.registers.flags (a + b + BitVec.ofNat width.bits carry.toNat)
          (a.toNat + b.toNat + carry.toNat) (a.toInt + b.toInt + carry.toNat)
          (a.toNat % 16 + b.toNat % 16 + carry.toNat)) := by
  have hflags := hcombines.flags_step (.inl hcontinued)
  refine ⟨fun hoperation => ?_, fun hoperation => ?_⟩
  · have hsubtract : m.step.2.registers.flags = (subtract a b false m.registers.flags).flags := by
      rcases hoperation with rfl | rfl <;> exact hflags
    refine ⟨?_, fun condition negated hbegins hjumps => ?_⟩
    · have hreport := (report_subtract a b false m.registers.flags width.four_lt_bits).auxiliary
      unfold Registers.flag
      rw [hsubtract, hreport, isUnsigned_four, Bool.toNat_false]
      omega
    · rw [step_jumpIf hbegins (.inl hjumps)]
      have hholds := condition.holds_iff width.four_lt_bits hsubtract
      rw [Bool.eq_iff_iff.mpr (hholds.trans decide_eq_true_iff.symm)]
  · rcases hoperation with rfl | rfl
    · rw [hflags]
      exact report_add a b false m.registers.flags width.four_lt_bits
    · rw [hflags]
      exact report_add a b (m.registers.flag .carry) m.registers.flags width.four_lt_bits

/-- A machine that compares the largest signed byte with the smallest, and then goes back if the
first is not the lesser. -/
def comparing : Machine :=
  ⟨{ Registers.initial with ax := 0x7f }, .onePage [0x3c, 0x80, 0x7d, 0xfc]⟩

theorem step_compare_jump_comparing :
    comparing.step.1 = .continued ∧ comparing.step.2.step.1 = .continued
      ∧ comparing.step.2.step.2.registers.ip = 0
      ∧ comparing.step.2.registers.flag .auxiliary = false := by
  have hfirst : comparing.registers.get .byte 0 = 0x7f := by decide
  have hsecond : comparing.numberAt .byte 0 = 0x80 := by decide +kernel
  have hcombines : comparing.Combines .cmp .byte 0x7f 0x80 (.register 0) := by
    rw [← hfirst, ← hsecond]
    exact .toAccumulator .byte (by decide +kernel)
  have hcompared : comparing.step.1 = .continued := by decide +kernel
  have hjumped : comparing.step.2.step.1 = .continued := by decide +kernel
  obtain ⟨hauxiliary, hjumps⟩ := (step_compare_jump hcombines hcompared).1 (.inl rfl)
  have hjump := hjumps .less true (by decide +kernel) hjumped
  refine ⟨hcompared, hjumped, ?_, ?_⟩
  · rw [hjump]
    decide +kernel
  · exact Bool.eq_false_iff.mpr fun hset => absurd (hauxiliary.mp hset) (by decide)

end Machine

end CmStream
