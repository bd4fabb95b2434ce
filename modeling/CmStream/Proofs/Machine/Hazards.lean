import CmStream.Proofs.Machine.OpenMemory

/-!
# The instructions that give up

Few instructions may give up by themselves, each for one cause and on one condition. On an open
memory each of them is followed to the point where it does.
-/

namespace CmStream

namespace Quotient

open Instruction

variable {r : Registers} {width : Width} {divisor : BitVec width.bits}

/-- The halves of a dividend, put together. -/
theorem toNat_halves (r : Registers) (width : Width) :
    (r.get width (extension width) ++ r.get width accumulator).toNat = dividend r width := by
  cases width with
  | byte => exact congrArg BitVec.toNat (Word.ofBytes_low_high r.ax)
  | word =>
    have hlower : r.ax.toNat < 2 ^ 16 := r.ax.isLt
    show (r.dx ++ r.ax).toNat = r.dx.toNat * 0x10000 + r.ax.toNat
    rw [BitVec.toNat_append, ← Nat.shiftLeft_add_eq_or_of_lt hlower, Nat.shiftLeft_eq]

theorem toInt_halves (r : Registers) (width : Width) :
    (r.get width (extension width) ++ r.get width accumulator).toInt = signedDividend r width := by
  cases width with
  | byte => exact congrArg BitVec.toInt (Word.ofBytes_low_high r.ax)
  | word =>
    have hhalves : (r.dx ++ r.ax).toNat = r.dx.toNat * 0x10000 + r.ax.toNat := toNat_halves r .word
    have hlower := r.ax.isLt
    show (r.dx ++ r.ax).toInt = r.dx.toInt * 0x10000 + r.ax.toNat
    rw [BitVec.toInt_eq_toNat_cond, BitVec.toInt_eq_toNat_cond, hhalves]
    split <;> split <;> omega

theorem unsigned?_eq_none_iff :
    unsigned? (r.get width (extension width)) (r.get width accumulator) divisor = none
      ↔ divisor = 0 ∨ ¬ Fits r width divisor false := by
  have hfits (quotient : Nat) : (BitVec.ofNat width.bits quotient).toNat ≠ quotient
      ↔ ¬ quotient < valueCount width := by
    rw [BitVec.toNat_ofNat, ne_eq, Nat.mod_eq_iff_lt (by cases width <;> decide)]
    cases width <;> rfl
  unfold unsigned? Fits
  simp only [toNat_halves, hfits, ite_eq_left_iff, reduceCtorEq, imp_false, Decidable.not_not]

theorem signed?_eq_none_iff :
    signed? (r.get width (extension width)) (r.get width accumulator) divisor = none
      ↔ divisor = 0 ∨ ¬ Fits r width divisor true := by
  have hfits (quotient : Int) : (BitVec.ofInt width.bits quotient).toInt ≠ quotient
      ↔ ¬ (2 * quotient < valueCount width ∧ -valueCount width ≤ 2 * quotient) := by
    rw [BitVec.toInt_ofInt, Int.bmod_def]
    cases width with
    | byte =>
      simp only [valueCount, Width.bits, Nat.reducePow]
      omega
    | word =>
      simp only [valueCount, Width.bits, Nat.reducePow]
      omega
  unfold signed? Fits
  simp only [toInt_halves, hfits, ite_eq_left_iff, reduceCtorEq, imp_false, Decidable.not_not]

end Quotient

namespace Microprogram

variable {α β : Type} {p : Microprogram α} {m after : Machine} {cause : Cause} {P Q : Prop}

/-- The program gives up for one cause at most, and does so just on a condition. -/
def GivesUpIff (p : Microprogram α) (m : Machine) (cause : Cause) (P : Prop) : Prop :=
  ∀ given, (p.run m).1 = .error given ↔ given = cause ∧ P

namespace GivesUpIff

theorem congr (h : GivesUpIff p m cause P) (hiff : P ↔ Q) : GivesUpIff p m cause Q :=
  fun given => (h given).trans (and_congr_right fun _ => hiff)

theorem raise (own : cause.isFault = false) (h : P) :
    GivesUpIff (raise cause own : Microprogram α) m cause P :=
  fun _ => ⟨fun hgiven => ⟨(Except.error.inj hgiven).symm, h⟩,
    fun hgiven => congrArg _ hgiven.1.symm⟩

theorem of_persists (hopen : m.memory.Open) (h : p.Persists) (hnot : ¬ P) :
    GivesUpIff p m cause P := by
  intro given
  obtain ⟨value, after, hrun, -⟩ := h.exists_run hopen
  rw [hrun]
  exact iff_of_false (fun herror => by cases herror) fun hgiven => hnot hgiven.2

/-- Behind a part that has succeeded, the rest decides. -/
theorem bind {f : α → Microprogram β} {value : α} (hrun : p.run m = (.ok value, after))
    (h : GivesUpIff (f value) after cause P) :
    GivesUpIff (p >>= f) m cause P := by
  intro given
  rw [run_bind_of_ok f hrun]
  exact h given

end GivesUpIff

end Microprogram

namespace Instruction

open Machine Microprogram

variable {m : Machine}

theorem givesUpIff_storeQuotient (hopen : m.memory.Open) {width : Width}
    {result : Option (Quotient.Result width.bits)} {P : Prop} (h : result = none ↔ P) :
    GivesUpIff (storeQuotient width result) m .divideError P := by
  cases result with
  | none => exact .raise rfl (h.mp rfl)
  | some result => exact .of_persists hopen (.modify _) fun hfails => nomatch h.mpr hfails

theorem givesUpIff_splitDigits (hopen : m.memory.Open) :
    GivesUpIff performSplitDigits m .divideError (m.nextByte = 0) := by
  refine .bind (run_fetchByte_of_open hopen) (.bind run_registers ?_)
  unfold Decimal.split?
  by_cases hzero : m.nextByte = 0
  · rw [if_pos hzero]
    exact .raise rfl hzero
  · rw [if_neg hzero]
    exact .of_persists hopen (.set _) hzero

theorem givesUpIff_interrupt (hopen : m.memory.Open) (opcode : Byte) (modifiers : Modifiers) :
    GivesUpIff (interrupt.perform opcode modifiers) m (.interrupt m.nextByte) True :=
  .bind (run_fetchByte_of_open hopen) (.raise rfl trivial)

theorem givesUpIff_interruptOnOverflow (hopen : m.memory.Open) (opcode : Byte)
    (modifiers : Modifiers) :
    GivesUpIff (interruptOnOverflow.perform opcode modifiers) m (.interrupt 4)
      (m.registers.flag .overflow = true) := by
  refine .bind run_registers ?_
  by_cases hset : m.registers.flag .overflow = true
  · rw [if_pos hset]
    exact .raise rfl hset
  · rw [if_neg hset]
    exact .of_persists hopen (.pure _) hset

section Behind

variable {modifiers : Modifiers} (hopen : m.memory.Open)
  (hoverride : modifiers.override = Encoding.override? m.modifiers m.registers) (opcode : Byte)

include hopen in
/-- What is fetched and loaded first by an instruction with an operand. -/
theorem givesUpIff_loaded {cause : Cause} {P : Prop} {width : Width}
    {f : Operands → BitVec width.bits → Microprogram Unit}
    (hrest : ∀ after : Machine, after.memory.Open → after.registers
      = { m.registers with ip := after.registers.ip } →
      GivesUpIff (f ⟨Encoding.field (m.tailAt 0), m.formOperand⟩ (m.formValue width)) after
        cause P) :
    GivesUpIff (do
        let operands ← Operands.fetch (Encoding.override? m.modifiers m.registers)
        let value ← operands.operand.load width
        f operands value) m.behindOpcode cause P :=
  .bind (run_fetchOperands hopen) (.bind (run_loadOperand hopen _ width) (hrest _ hopen rfl))

/-- What is undefined without a place in memory. -/
theorem givesUpIff_place {after : Machine} (hafter : after.memory.Open)
    {f : FarPointer → Microprogram Unit} (hrest : ∀ place, (f place).Persists) :
    GivesUpIff (m.formOperand.place opcode >>= f) after (.undefinedOpcode opcode)
      (Encoding.namesRegister (m.tailAt 0) = true) := by
  unfold formOperand
  by_cases hregister : Encoding.namesRegister (m.tailAt 0) = true
  · rw [if_pos hregister]
    exact .raise rfl hregister
  · rw [if_neg hregister]
    exact .of_persists hafter (hrest _) hregister

theorem not_failsToDivide {width : Width}
    (hdiv : UnaryOperation.ofIndex (Encoding.field (m.tailAt 0)) ≠ .div)
    (hidiv : UnaryOperation.ofIndex (Encoding.field (m.tailAt 0)) ≠ .idiv) :
    ¬ m.FailsToDivide width := by
  rintro ⟨signed, hfield, -⟩
  rw [hfield] at hdiv hidiv
  cases signed with
  | false => exact hdiv rfl
  | true => exact hidiv rfl

include hopen hoverride

theorem givesUpIff_byteGroup :
    GivesUpIff (byteGroup.perform opcode modifiers) m.behindOpcode (.undefinedOpcode opcode)
      (2 ≤ (Encoding.field (m.tailAt 0)).toNat) := by
  rw [perform, hoverride]
  refine givesUpIff_loaded hopen fun after hafter _ => ?_
  dsimp only
  by_cases hzero : Encoding.field (m.tailAt 0) = 0
  · rw [if_pos hzero]
    refine .of_persists hafter (.bind (.settle _) fun _ => .storeOperand _ _ _) ?_
    rw [hzero]
    decide
  rw [if_neg hzero]
  by_cases hone : Encoding.field (m.tailAt 0) = 1
  · rw [if_pos hone]
    refine .of_persists hafter (.bind (.settle _) fun _ => .storeOperand _ _ _) ?_
    rw [hone]
    decide
  rw [if_neg hone]
  exact .raise rfl (by bv_omega)

theorem givesUpIff_unaryGroup (width : Width) :
    GivesUpIff ((unaryGroup width).perform opcode modifiers) m.behindOpcode .divideError
      (m.FailsToDivide width) := by
  have hfields : ∀ field : BitVec 3,
      (UnaryOperation.ofIndex field = .div → field = Encoding.divisionField false)
        ∧ (UnaryOperation.ofIndex field = .idiv → field = Encoding.divisionField true) := by
    decide
  rw [perform, hoverride]
  refine givesUpIff_loaded hopen fun after hafter hregisters => .bind run_registers ?_
  have hget (index : RegisterIndex) :
      after.registers.get width index = m.registers.get width index := by
    rw [hregisters]
    exact Registers.get_with_ip _ _ width index
  simp only [hget]
  cases hop : UnaryOperation.ofIndex (Encoding.field (m.tailAt 0)) with
  | div =>
    refine givesUpIff_storeQuotient hafter ?_
    rw [Quotient.unsigned?_eq_none_iff, FailsToDivide, (hfields _).1 hop]
    simp [Encoding.divisionField]
  | idiv =>
    refine givesUpIff_storeQuotient hafter ?_
    rw [Quotient.signed?_eq_none_iff, FailsToDivide, (hfields _).2 hop]
    simp [Encoding.divisionField]
  | test =>
    refine .of_persists hafter ?_ (not_failsToDivide (by simp [hop]) (by simp [hop]))
    exact .bind (persists_fetchNumber width false) fun _ => .bind (.settle _) fun _ => .pure _
  | not =>
    refine .of_persists hafter ?_ (not_failsToDivide (by simp [hop]) (by simp [hop]))
    exact .storeOperand _ _ _
  | neg =>
    refine .of_persists hafter ?_ (not_failsToDivide (by simp [hop]) (by simp [hop]))
    exact .bind (.settle _) fun _ => .storeOperand _ _ _
  | mul | imul =>
    refine .of_persists hafter ?_ (not_failsToDivide (by simp [hop]) (by simp [hop]))
    exact .modify _

theorem givesUpIff_wordGroup :
    GivesUpIff (wordGroup.perform opcode modifiers) m.behindOpcode (.undefinedOpcode opcode)
      (Encoding.field (m.tailAt 0) = 7 ∨ Encoding.namesRegister (m.tailAt 0) = true
        ∧ (Encoding.field (m.tailAt 0) = 3 ∨ Encoding.field (m.tailAt 0) = 5)) := by
  have hfields : ∀ field : BitVec 3, (WordOperation.ofIndex field = .undefined ↔ field = 7)
      ∧ (WordOperation.ofIndex field = .callFar ↔ field = 3)
      ∧ (WordOperation.ofIndex field = .jumpFar ↔ field = 5) := by
    decide
  obtain ⟨hundefined, hcallFar, hjumpFar⟩ := hfields (Encoding.field (m.tailAt 0))
  rw [perform, hoverride]
  refine .bind (run_fetchOperands hopen) ?_
  dsimp only
  rw [← hundefined, ← hcallFar, ← hjumpFar]
  have hafter : (m.behindOpcode.past
    (1 + Encoding.displacementLength (m.tailAt 0))).memory.Open := hopen
  cases hop : WordOperation.ofIndex (Encoding.field (m.tailAt 0)) with
  | increment | decrement =>
    refine .of_persists hafter ?_ (by simp)
    exact .bind (.loadOperand _ _) fun _ => .bind (.settle _) fun _ => .storeOperand _ _ _
  | call =>
    refine .of_persists hafter ?_ (by simp)
    exact .bind (.loadOperand _ _) fun _ => .bind persists_pushReturn fun _ => .modify _
  | callFar =>
    refine (givesUpIff_place opcode hafter fun place => ?_).congr (by simp)
    exact .bind (.loadPointer _) fun _ => .bind persists_pushFarReturn fun _ => .modify _
  | jump =>
    refine .of_persists hafter ?_ (by simp)
    exact .bind (.loadOperand _ _) fun _ => .modify _
  | jumpFar =>
    refine (givesUpIff_place opcode hafter fun place => ?_).congr (by simp)
    exact .bind (.loadPointer _) fun _ => .modify _
  | push =>
    refine .of_persists hafter ?_ (by simp)
    exact .bind (.loadOperand _ _) fun _ => .push _
  | undefined => exact .raise rfl (by simp)

theorem givesUpIff_loadAddress :
    GivesUpIff (loadAddress.perform opcode modifiers) m.behindOpcode (.undefinedOpcode opcode)
      (Encoding.namesRegister (m.tailAt 0) = true) := by
  rw [perform, hoverride]
  refine .bind (run_fetchOperands hopen) (givesUpIff_place opcode ?_ fun place => .modify _)
  exact hopen

theorem givesUpIff_loadFarPointer (segment : SegmentRegister) :
    GivesUpIff ((loadFarPointer segment).perform opcode modifiers) m.behindOpcode
      (.undefinedOpcode opcode) (Encoding.namesRegister (m.tailAt 0) = true) := by
  rw [perform, hoverride]
  refine .bind (run_fetchOperands hopen) (givesUpIff_place opcode ?_ fun place => ?_)
  · exact hopen
  · exact .bind (.loadPointer _) fun _ => .bind (.modify _) fun _ => .modify _

end Behind

end Instruction

end CmStream
