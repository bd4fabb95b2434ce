import CmStream.Proofs.Arithmetic.Combining
import CmStream.Proofs.Arithmetic.Limbs

/-!
# Sums and differences of packed decimal digits

A byte of two digits that has been added to or subtracted from as a binary number is off by six for
each digit that has left its range. The correction finds out from the byte and from the flags which
of the digits that are, so that behind it the byte holds two digits again, and the carry flag the
decimal carry. Byte by byte this gives numbers of any length.
-/

namespace CmStream

open Arithmetic

namespace Decimal

variable {a b value : Byte} {carry : Bool} {flags : Word}

theorem digits_lt (h : IsPacked a) : digits a < 100 := by
  unfold IsPacked at h
  unfold digits
  omega

/-! ## What a correction comes to -/

section Correction

variable (value : Byte) (flags : Word)

theorem toNat_correction (lower upper : Bool) :
    (correction lower upper).toNat = 6 * lower.toNat + 96 * upper.toNat := by
  cases lower <;> cases upper <;> rfl

theorem toNat_adjustSum : (adjustSum value flags).value.toNat
    = (value.toNat + 6 * (lowerOff value flags).toNat
      + 96 * (upperOff value flags).toNat) % 256 := by
  rw [Nat.add_assoc, ← toNat_correction]
  exact BitVec.toNat_add _ _

theorem carry_adjustSum : Flags.get (adjustSum value flags).flags .carry
    = (upperOff value flags || (lowerOff value flags && decide (0xff < value.toNat + 6))) := by
  simp only [adjustSum, Flags.describe, Flags.get_set, reduceCtorEq, if_false, if_true]

theorem toNat_adjustDifference : (adjustDifference value flags).value.toNat
    = (256 - (6 * (lowerOff value flags).toNat + 96 * (upperOff value flags).toNat)
      + value.toNat) % 256 := by
  rw [← toNat_correction]
  exact BitVec.toNat_sub _ _

theorem carry_adjustDifference : Flags.get (adjustDifference value flags).flags .carry
    = (upperOff value flags || (lowerOff value flags && decide (value.toNat < 6))) := by
  simp only [adjustDifference, Flags.describe, Flags.get_set, reduceCtorEq, if_false, if_true]

end Correction

/-! ## Single bytes -/

section Byte

variable (ha : IsPacked a) (hb : IsPacked b)

include ha hb

section Sum

variable
  (hsum : a.toNat + b.toNat + carry.toNat = value.toNat + 256 * (Flags.get flags .carry).toNat)
  (hauxiliary : Flags.get flags .auxiliary = true
    ↔ 16 ≤ a.toNat % 16 + b.toNat % 16 + carry.toNat)

include hsum

theorem upperOff_sum :
    upperOff value flags = decide (100 ≤ digits a + digits b + carry.toNat) := by
  unfold IsPacked at ha hb
  have hcarry := carry.toNat_le
  have hvalue := value.isLt
  unfold upperOff digits
  cases hflag : Flags.get flags .carry <;> simp [hflag] at hsum ⊢ <;> omega

include hauxiliary

theorem lowerOff_sum :
    lowerOff value flags = decide (10 ≤ a.toNat % 16 + b.toNat % 16 + carry.toNat) := by
  unfold IsPacked at ha hb
  have hcarry := carry.toNat_le
  unfold lowerOff
  cases hflag : Flags.get flags .auxiliary <;> simp [hflag] at hauxiliary ⊢ <;> omega

/-- The corrected sum is one of two digits each. -/
theorem adjustSum_packed : IsPacked (adjustSum value flags).value
    ∧ digits a + digits b + carry.toNat = digits (adjustSum value flags).value
      + 100 * (Flags.get (adjustSum value flags).flags .carry).toNat := by
  have hlower := lowerOff_sum ha hb hsum hauxiliary
  have hupper := upperOff_sum ha hb hsum
  have hresult := toNat_adjustSum value flags
  have hout := (Flags.get flags .carry).toNat_le
  have hcarry := carry.toNat_le
  have hvalue := value.isLt
  unfold IsPacked at ha hb ⊢
  -- A sum whose lower digit is corrected into a carry is too large for two digits anyway.
  have hlast : Flags.get (adjustSum value flags).flags .carry
      = decide (100 ≤ digits a + digits b + carry.toNat) := by
    rw [carry_adjustSum, hlower, hupper, Bool.eq_iff_iff]
    unfold digits
    simp only [Bool.or_eq_true, Bool.and_eq_true, decide_eq_true_eq]
    omega
  rw [hlower, hupper] at hresult
  rw [hlast]
  unfold digits at hresult ⊢
  generalize (adjustSum value flags).value.toNat = result at hresult ⊢
  by_cases hdigit : 10 ≤ a.toNat % 16 + b.toNat % 16 + carry.toNat <;>
    by_cases hpair : 100 ≤ 10 * (a.toNat / 16) + a.toNat % 16
      + (10 * (b.toNat / 16) + b.toNat % 16) + carry.toNat <;>
    simp only [hdigit, hpair, decide_true, decide_false, Bool.toNat_true, Bool.toNat_false]
      at hresult ⊢ <;> omega

end Sum

section Difference

variable
  (hdifference : value.toNat + b.toNat + carry.toNat
    = a.toNat + 256 * (Flags.get flags .carry).toNat)
  (hauxiliary : Flags.get flags .auxiliary = true ↔ a.toNat % 16 < b.toNat % 16 + carry.toNat)

include hdifference

theorem upperOff_difference :
    upperOff value flags = decide (digits a < digits b + carry.toNat) := by
  unfold IsPacked at ha hb
  have hcarry := carry.toNat_le
  have hvalue := value.isLt
  unfold upperOff digits
  cases hflag : Flags.get flags .carry <;> simp [hflag] at hdifference ⊢ <;> omega

include hauxiliary

theorem lowerOff_difference :
    lowerOff value flags = decide (a.toNat % 16 < b.toNat % 16 + carry.toNat) := by
  unfold IsPacked at ha hb
  have hcarry := carry.toNat_le
  unfold lowerOff
  cases hflag : Flags.get flags .auxiliary <;> simp [hflag] at hauxiliary ⊢ <;> omega

/-- The corrected difference is one of two digits each. -/
theorem adjustDifference_packed : IsPacked (adjustDifference value flags).value
    ∧ digits (adjustDifference value flags).value + digits b + carry.toNat
      = digits a + 100 * (Flags.get (adjustDifference value flags).flags .carry).toNat := by
  have hlower := lowerOff_difference ha hb hdifference hauxiliary
  have hupper := upperOff_difference ha hb hdifference
  have hresult := toNat_adjustDifference value flags
  have hout := (Flags.get flags .carry).toNat_le
  have hcarry := carry.toNat_le
  have hvalue := value.isLt
  unfold IsPacked at ha hb ⊢
  -- Where the lower digit alone has borrowed, six are left at least, so its correction does not.
  have hlast : Flags.get (adjustDifference value flags).flags .carry
      = decide (digits a < digits b + carry.toNat) := by
    rw [carry_adjustDifference, hlower, hupper, Bool.eq_iff_iff]
    unfold digits
    simp only [Bool.or_eq_true, Bool.and_eq_true, decide_eq_true_eq]
    omega
  rw [hlower, hupper] at hresult
  rw [hlast]
  unfold digits at hresult ⊢
  generalize (adjustDifference value flags).value.toNat = result at hresult ⊢
  by_cases hdigit : a.toNat % 16 < b.toNat % 16 + carry.toNat <;>
    by_cases hpair : 10 * (a.toNat / 16) + a.toNat % 16
      < 10 * (b.toNat / 16) + b.toNat % 16 + carry.toNat <;>
    simp only [hdigit, hpair, decide_true, decide_false, Bool.toNat_true, Bool.toNat_false]
      at hresult ⊢ <;> omega

end Difference

end Byte

end Decimal

/-- Corrects the lower byte of the accumulator. -/
def Instruction.correctLow (adjust : Byte → Word → Computed 8) : Microprogram Unit := do
  let r ← Microprogram.registers
  let value ← Microprogram.settle (adjust (r.byte .al))
  setRegister .byte accumulator value

namespace Machine

open Decimal Instruction Microprogram

variable {m last after : Machine} {limb : Limb 8} {limbs : List (Limb 8)}

/-! ## Steps -/

/-- An instruction that corrects the lower byte of the accumulator. -/
theorem step_adjust {opcode : Byte} {adjustment : DecimalAdjustment}
    {adjust : Byte → Word → Computed 8}
    (hopcode : Opcode.ofByte opcode = .instruction (.adjust adjustment))
    (hadjust : performAdjust adjustment = correctLow adjust)
    (hbegins : m.opcode? = some opcode) (hcompletes : m.Completes) :
    let computed := adjust (m.registers.byte .al) m.registers.flags
    m.step.2.registers.byte .al = computed.value
      ∧ m.step.2.registers.flags = computed.flags := by
  intro computed
  obtain ⟨modifiers, -, hperform⟩ := exists_performed_of_ofByte hcompletes hbegins hopcode
  unfold perform at hperform
  dsimp only at hperform
  rw [hadjust] at hperform
  have hafter := congrArg Prod.snd hperform
  rw [← hafter]
  exact ⟨Registers.get_set _ .byte 0 computed.value, Registers.flags_set _ .byte 0 computed.value⟩

namespace Adjusted

/-- What the first of the two steps computes, the second one corrects. -/
theorem computed {operation : Arithmetic.Operation} {opcode : Byte}
    {adjustment : DecimalAdjustment} {adjust : Byte → Word → Computed 8}
    (h : Adjusted operation opcode m limb after) (hkeeps : operation.keepsResult = true)
    (hopcode : Opcode.ofByte opcode = .instruction (.adjust adjustment))
    (hadjust : performAdjust adjustment = correctLow adjust) :
    let binary := operation.compute limb.first limb.second m.registers.flags
    let computed := adjust binary.value binary.flags
    limb.result = computed.value
      ∧ after.registers.flag .carry = Flags.get computed.flags .carry := by
  obtain ⟨hcombines, hcontinued, hbegins, hstep, hresult⟩ := h
  have hvalue : m.step.2.registers.byte .al = _ := hcombines.get_step (.inl hcontinued) hkeeps
  have hflags := hcombines.flags_step (.inl hcontinued)
  have hadjusted := step_adjust hopcode hadjust hbegins (.inl (by rw [hstep]))
  rw [hstep, hvalue, hflags] at hadjusted
  exact ⟨hresult.symm.trans hadjusted.1, congrArg (Flags.get · .carry) hadjusted.2⟩

variable (hfirst : IsPacked limb.first) (hsecond : IsPacked limb.second)

include hfirst hsecond

theorem adds (h : Adjusted .adc 0x27 m limb after) : IsPacked limb.result
    ∧ digits limb.first + digits limb.second + (m.registers.flag .carry).toNat
      = digits limb.result + 100 * (after.registers.flag .carry).toNat := by
  obtain ⟨hresult, hout⟩ := h.computed rfl rfl (show _ = correctLow adjustSum from rfl)
  have hsum := (adds_add limb.first limb.second (m.registers.flag .carry) m.registers.flags
    (by decide)).digits
  have hauxiliary := (report_add limb.first limb.second (m.registers.flag .carry)
    m.registers.flags (by decide)).auxiliary
  rw [isUnsigned_four] at hauxiliary
  rw [hresult, hout]
  exact adjustSum_packed hfirst hsecond hsum (hauxiliary.trans (by omega))

theorem subtracts (h : Adjusted .sbb 0x2f m limb after) : IsPacked limb.result
    ∧ digits limb.result + digits limb.second + (m.registers.flag .carry).toNat
      = digits limb.first + 100 * (after.registers.flag .carry).toNat := by
  obtain ⟨hresult, hout⟩ := h.computed rfl rfl (show _ = correctLow adjustDifference from rfl)
  have hdifference := (adds_subtract limb.first limb.second (m.registers.flag .carry)
    m.registers.flags (by decide)).digits
  have hauxiliary := (report_subtract limb.first limb.second (m.registers.flag .carry)
    m.registers.flags (by decide)).auxiliary
  rw [isUnsigned_four] at hauxiliary
  rw [hresult, hout]
  exact adjustDifference_packed hfirst hsecond hdifference (hauxiliary.trans (by omega))

end Adjusted

/-! ## Chains -/

theorem packed_lt {bytes : List Byte} (h : ∀ byte ∈ bytes, IsPacked byte) :
    packed bytes < 100 ^ bytes.length := by
  unfold packed
  have hlength : (bytes.map digits).length = bytes.length := List.length_map digits
  rw [← hlength]
  refine Nat.ofDigits_lt_base_pow_length (by decide) fun digit hdigit => ?_
  obtain ⟨byte, hbyte, rfl⟩ := List.mem_map.mp hdigit
  exact digits_lt (h byte hbyte)

/-- If every byte comes out as two digits that add up, the numbers add up. -/
theorem Chain.packed_eq {handles : Machine → Limb 8 → Machine → Prop} {a b sum : Limb 8 → Byte}
    (h : Chain KeepsCarry handles m limbs last)
    (hplace : ∀ limb ∈ limbs, ∀ before after, handles before limb after → IsPacked limb.result
      ∧ digits (a limb) + digits (b limb) + (before.registers.flag .carry).toNat
        = digits (sum limb) + 100 * (after.registers.flag .carry).toNat) :
    (∀ limb ∈ limbs, IsPacked limb.result)
      ∧ packed (limbs.map a) + packed (limbs.map b) + (m.registers.flag .carry).toNat
        = packed (limbs.map sum) + 100 ^ limbs.length * (last.registers.flag .carry).toNat := by
  constructor
  · intro limb hlimb
    obtain ⟨before, after, handled⟩ := h.exists_handled limb hlimb
    exact (hplace limb hlimb before after handled).1
  · unfold packed
    rw [List.map_map, List.map_map, List.map_map]
    exact h.ofDigits_eq (fun _ _ hkeeps => hkeeps) fun limb hlimb before after handled =>
      (hplace limb hlimb before after handled).2

/-- Bytes of packed decimal digits that are added and corrected one after the other come to those of
the sum, and bytes that are subtracted and corrected to those of the difference. After each
correction there are two digits in the lower byte of the accumulator; the carry flag says at the end
whether the numbers have carried or borrowed. -/
theorem chain_adjusts
    (hfirst : ∀ limb ∈ limbs, IsPacked limb.first)
    (hsecond : ∀ limb ∈ limbs, IsPacked limb.second) :
    let first := packed (limbs.map (·.first))
    let second := packed (limbs.map (·.second))
    let result := packed (limbs.map (·.result))
    let carry := (m.registers.flag .carry).toNat
    (Chain KeepsCarry (Adjusted .adc 0x27) m limbs last →
        (∀ limb ∈ limbs, IsPacked limb.result)
          ∧ result = (first + second + carry) % 100 ^ limbs.length
          ∧ (last.registers.flag .carry = true ↔ 100 ^ limbs.length ≤ first + second + carry))
      ∧ (Chain KeepsCarry (Adjusted .sbb 0x2f) m limbs last →
        (∀ limb ∈ limbs, IsPacked limb.result)
          ∧ (result : Int) = (first - second - carry) % (100 ^ limbs.length : Nat)
          ∧ (last.registers.flag .carry = true ↔ first < second + carry)) := by
  have hlt (part : Limb 8 → Byte) (hpacked : ∀ limb ∈ limbs, IsPacked (part limb)) :
      packed (limbs.map part) < 100 ^ limbs.length := by
    have hpart : packed (limbs.map part) < _ := packed_lt (List.forall_mem_map.mpr hpacked)
    rwa [List.length_map] at hpart
  refine ⟨fun h => ?_, fun h => ?_⟩
  · obtain ⟨hresult, hsum⟩ := h.packed_eq fun limb hlimb _ _ handled =>
      handled.adds (hfirst limb hlimb) (hsecond limb hlimb)
    exact ⟨hresult, sum_eq_mod hsum (hlt _ hresult), out_iff_le hsum (hlt _ hresult)⟩
  -- Read the other way round, a difference is a sum: its result and the second operand add up.
  · obtain ⟨hresult, hsum⟩ := h.packed_eq fun limb hlimb _ _ handled =>
      handled.subtracts (hfirst limb hlimb) (hsecond limb hlimb)
    exact ⟨hresult, difference_eq_mod hsum (hlt _ hresult), out_iff_lt hsum (hlt _ hresult)⟩

/-! ## A sum of two bytes -/

/-- A machine that adds 27 to 95, and 34 and the carry to 12. -/
def addingDigits : Machine :=
  ⟨{ Registers.initial with ax := 0x95 },
    .onePage [0x14, 0x27, 0x27, 0xb0, 0x12, 0x14, 0x34, 0x27]⟩

/-- A machine that subtracts 27 from 22. -/
def subtractingDigits : Machine :=
  ⟨{ Registers.initial with ax := 0x22 }, .onePage [0x1c, 0x27, 0x2f]⟩

theorem adjusted_low {operation : Arithmetic.Operation} {opcode : Byte}
    (h : m.opcode? = some (Encoding.arithmetic operation.number 0x04)
      ∧ m.registers.byte .al = limb.first ∧ m.tailAt 0 = limb.second ∧ m.step.1 = .continued
      ∧ m.step.2.opcode? = some opcode ∧ m.step.2.step.1 = .continued
      ∧ m.step.2.step.2.registers.byte .al = limb.result) :
    Adjusted operation opcode m limb m.step.2.step.2 := by
  obtain ⟨hbegins, hfirst, hsecond, hcontinued, hadjusts, hadjusted, hresult⟩ := h
  exact ⟨combines_low hbegins hfirst hsecond, hcontinued, hadjusts, Prod.ext hadjusted rfl, hresult⟩

/-- From 1295 to 4722. -/
def digitsAdded : List (Limb 8) := [⟨0x95, 0x27, 0x22⟩, ⟨0x12, 0x34, 0x47⟩]

/-- From 22 to 95, with a borrow. -/
def digitsSubtracted : List (Limb 8) := [⟨0x22, 0x27, 0x95⟩]

theorem chain_addingDigits : Chain KeepsCarry (Adjusted .adc 0x27) addingDigits digitsAdded
    (addingDigits.after 5) := by
  have hkeeps : KeepsCarry (addingDigits.after 2) (addingDigits.after 3) := by decide +kernel
  refine .cons rfl (adjusted_low ?_) <| .cons hkeeps (adjusted_low ?_) (.nil _)
  all_goals decide +kernel

theorem chain_subtractingDigits : Chain KeepsCarry (Adjusted .sbb 0x2f) subtractingDigits
    digitsSubtracted (subtractingDigits.after 2) := by
  exact .cons rfl (adjusted_low (by decide +kernel)) (.nil _)

theorem chain_adjusts_addingDigits :
    packed (digitsAdded.map (·.result)) = (1295 + 3427) % 10000
      ∧ (addingDigits.after 5).registers.flag .carry = false
      ∧ (packed (digitsSubtracted.map (·.result)) : Int) = (22 - 27) % 100
      ∧ (subtractingDigits.after 2).registers.flag .carry = true := by
  have hfirst : ∀ limb ∈ digitsAdded, IsPacked limb.first := by decide
  have hsecond : ∀ limb ∈ digitsAdded, IsPacked limb.second := by decide
  have hfirst' : ∀ limb ∈ digitsSubtracted, IsPacked limb.first := by decide
  have hsecond' : ∀ limb ∈ digitsSubtracted, IsPacked limb.second := by decide
  have hadds := (chain_adjusts hfirst hsecond).1 chain_addingDigits
  have hsubtracts := (chain_adjusts hfirst' hsecond').2 chain_subtractingDigits
  obtain ⟨-, hsum, hcarry⟩ := hadds
  obtain ⟨-, hdifference, hborrow⟩ := hsubtracts
  refine ⟨hsum, ?_, hdifference, ?_⟩
  · exact Bool.eq_false_iff.mpr fun hset => absurd (hcarry.mp hset) (by decide)
  · exact hborrow.mpr (by decide)

end Machine

end CmStream
