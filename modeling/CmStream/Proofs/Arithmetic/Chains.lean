import CmStream.Proofs.Arithmetic.Combining
import CmStream.Proofs.Arithmetic.Limbs
import CmStream.Proofs.Machine.Carrying
import CmStream.Proofs.Machine.FlagKeeping

/-!
# Wide sums and differences

Limbs that are added one after the other, or subtracted, with the carry passed on in between, come
to the sum or the difference of the numbers that they stand for. The flags at the end are those that
one operation on operands of that width would leave. Subtracting takes back what adding has done.
-/

namespace CmStream

namespace Machine

open Arithmetic Limbs

variable {m last after : Machine} {operation : Arithmetic.Operation} {width : Width}
  {limb : Limb width.bits} {limbs : List (Limb width.bits)}

/-! ## Steps -/

theorem built_of_step {outcome : Outcome} (hstep : m.step = (outcome, after))
    (hbuilt : m.memory.Built) : after.memory.Built := by
  have hafter := built_after 1 hbuilt
  rwa [show m.after 1 = m.step.2 from rfl, hstep] at hafter

theorem Passes.built (h : m.Passes after) (hbuilt : m.memory.Built) : after.memory.Built := by
  induction h with
  | refl => exact hbuilt
  | tail _ hpasses ih => exact built_of_step hpasses.2 ih

namespace Combined

theorem built (h : Combined operation width m limb after) (hbuilt : m.memory.Built) :
    after.memory.Built := by
  obtain ⟨destination, -, hstep, -⟩ := h
  exact built_of_step hstep hbuilt

/-- What is left behind is the result of the operation, and its flags. -/
theorem computed (h : Combined operation width m limb after) (hbuilt : m.memory.Built)
    (hkeeps : operation.keepsResult = true) :
    let computed := operation.compute limb.first limb.second m.registers.flags
    limb.result = computed.value ∧ after.registers.flags = computed.flags := by
  obtain ⟨destination, hcombines, hstep, hresult⟩ := h
  have hcompletes : m.Completes := .inl (by rw [hstep])
  have hflags := hcombines.flags_step hcompletes
  have hvalue := hcombines.value_step hcompletes hbuilt hkeeps
  rw [hstep] at hflags hvalue
  exact ⟨hresult.symm.trans hvalue, hflags⟩

theorem adds (h : Combined .adc width m limb after) (hbuilt : m.memory.Built) :
    Adds (m.registers.flag .carry) limb.first limb.second limb.result after.registers.flags := by
  obtain ⟨hresult, hflags⟩ := h.computed hbuilt rfl
  rw [hresult, hflags]
  exact adds_add _ _ _ _ width.four_lt_bits

/-- A difference and what has been subtracted add up to the first operand. -/
theorem subtracts (h : Combined .sbb width m limb after) (hbuilt : m.memory.Built) :
    Adds (m.registers.flag .carry) limb.result limb.second limb.first after.registers.flags := by
  obtain ⟨hresult, hflags⟩ := h.computed hbuilt rfl
  rw [hresult, hflags]
  exact adds_subtract _ _ _ _ width.four_lt_bits

end Combined

/-! ## Chains -/

/-- Memory stays built all along a chain. -/
theorem Chain.built (h : Chain Passes (Combined operation width) m limbs last)
    (hbuilt : m.memory.Built) :
    Chain Passes (fun m limb after => m.memory.Built ∧ Combined operation width m limb after)
      m limbs last :=
  h.invariant hbuilt (fun _ _ hpasses => hpasses.built) fun _ _ _ hcombined => hcombined.built

section Whole

variable (hbuilt : m.memory.Built) (hmore : limbs ≠ [])

include hbuilt hmore

theorem Chain.adds_whole (h : Chain Passes (Combined .adc width) m limbs last) :
    Adds (m.registers.flag .carry)
      (BitVec.ofNat (width.bits * limbs.length) (unsigned (limbs.map (·.first))))
      (BitVec.ofNat (width.bits * limbs.length) (unsigned (limbs.map (·.second))))
      (BitVec.ofNat (width.bits * limbs.length) (unsigned (limbs.map (·.result))))
      last.registers.flags :=
  (h.built hbuilt).adds (fun _ _ hpasses => hpasses.carry_eq)
    width.bits_pos hmore fun _ _ _ handled => handled.2.adds handled.1

theorem Chain.subtracts_whole (h : Chain Passes (Combined .sbb width) m limbs last) :
    Adds (m.registers.flag .carry)
      (BitVec.ofNat (width.bits * limbs.length) (unsigned (limbs.map (·.result))))
      (BitVec.ofNat (width.bits * limbs.length) (unsigned (limbs.map (·.second))))
      (BitVec.ofNat (width.bits * limbs.length) (unsigned (limbs.map (·.first))))
      last.registers.flags :=
  (h.built hbuilt).adds (fun _ _ hpasses => hpasses.carry_eq)
    width.bits_pos hmore fun _ _ _ handled => handled.2.subtracts handled.1

/-- To subtract the same numbers from the result, with the same carry at the beginning, restores the
first operands. -/
theorem Chain.restores (h : Chain Passes (Combined .adc width) m limbs last)
    {other otherLast : Machine} {back : List (Limb width.bits)} (hother : other.memory.Built)
    (hsame : other.registers.flag .carry = m.registers.flag .carry)
    (hback : Chain Passes (Combined .sbb width) other back otherLast)
    (hfirst : back.map (·.first) = limbs.map (·.result))
    (hsecond : back.map (·.second) = limbs.map (·.second)) :
    back.map (·.result) = limbs.map (·.first) := by
  have hbits : 0 < width.bits * limbs.length :=
    Nat.mul_pos width.bits_pos (List.length_pos_iff.mpr hmore)
  have hlength : back.length = limbs.length := by
    simpa only [List.length_map] using congrArg List.length hfirst
  have hbackMore : back ≠ [] := by
    rintro rfl
    exact hmore (List.length_eq_zero_iff.mp hlength.symm)
  -- Both chains say that something and the second operand add up to the result of the first.
  have hwhole := hback.subtracts_whole hother hbackMore
  rw [hfirst, hsecond, hsame, hlength] at hwhole
  have hequal := (h.adds_whole hbuilt hmore).first_unique hbits hwhole
  refine eq_of_unsigned_eq width.bits_pos (by rw [List.length_map, List.length_map, hlength]) ?_
  rw [← toNat_ofNat_unsigned ((List.length_map _).trans hlength), hequal,
    toNat_ofNat_unsigned (List.length_map _)]

end Whole

/-- Limbs that are added come to the limbs of the sum, and limbs that are subtracted to those of the
difference. The carry flag then says whether the numbers have carried or borrowed, the overflow flag
whether they have left the range of signed numbers. To subtract again restores what there was. None
of the instructions in between makes a difference, for they leave the carry flag as it is. -/
theorem chain_adds_or_subtracts (hbuilt : m.memory.Built) (hmore : limbs ≠ []) :
    let bits := width.bits * limbs.length
    let first := limbs.map (·.first)
    let second := limbs.map (·.second)
    let result := limbs.map (·.result)
    let carry := m.registers.flag .carry
    (Chain Passes (Combined .adc width) m limbs last →
        unsigned result = (unsigned first + unsigned second + carry.toNat) % 2 ^ bits
          ∧ (last.registers.flag .carry = true
            ↔ 2 ^ bits ≤ unsigned first + unsigned second + carry.toNat)
          ∧ (last.registers.flag .overflow = true
            ↔ ¬ IsSigned bits (signed first + signed second + carry.toNat))
          ∧ ∀ (other otherLast : Machine) (back : List (Limb width.bits)), other.memory.Built →
            other.registers.flag .carry = carry →
            Chain Passes (Combined .sbb width) other back otherLast →
            back.map (·.first) = result → back.map (·.second) = second →
            back.map (·.result) = first)
      ∧ (Chain Passes (Combined .sbb width) m limbs last →
        (unsigned result : Int)
            = (unsigned first - unsigned second - carry.toNat) % (2 ^ bits : Nat)
          ∧ (last.registers.flag .carry = true
            ↔ unsigned first < unsigned second + carry.toNat)
          ∧ (last.registers.flag .overflow = true
            ↔ ¬ IsSigned bits (signed first - signed second - carry.toNat)))
      ∧ ∀ before after : Machine, before.Passes after →
        after.registers.flag .carry = before.registers.flag .carry := by
  intro bits first second result carry
  have hbits : 0 < bits := Nat.mul_pos width.bits_pos (List.length_pos_iff.mpr hmore)
  have hunsigned (part : Limb width.bits → BitVec width.bits) :
      (BitVec.ofNat bits (unsigned (limbs.map part))).toNat = unsigned (limbs.map part) :=
    toNat_ofNat_unsigned (List.length_map part)
  have hsigned (part : Limb width.bits → BitVec width.bits) :
      (BitVec.ofNat bits (unsigned (limbs.map part))).toInt = signed (limbs.map part) :=
    toInt_ofNat_unsigned (List.length_map part)
  have hlt (part : Limb width.bits → BitVec width.bits) : unsigned (limbs.map part) < 2 ^ bits := by
    have hpart := unsigned_lt (limbs.map part)
    rwa [List.length_map] at hpart
  refine ⟨fun h => ?_, fun h => ?_, fun before after hpasses => hpasses.carry_eq⟩
  · have hadds := h.adds_whole hbuilt hmore
    have hdigits := hadds.digits
    have hoverflow := hadds.overflow_iff hbits
    rw [hunsigned, hunsigned, hunsigned] at hdigits
    rw [hsigned, hsigned] at hoverflow
    exact ⟨sum_eq_mod hdigits (hlt _), out_iff_le hdigits (hlt _), hoverflow,
      fun _ _ _ hother hsame hback hfirst hsecond =>
        h.restores hbuilt hmore hother hsame hback hfirst hsecond⟩
  · have hsubtracts := h.subtracts_whole hbuilt hmore
    have hdigits := hsubtracts.digits
    have hoverflow := hsubtracts.overflow_difference_iff hbits
    rw [hunsigned, hunsigned, hunsigned] at hdigits
    rw [hsigned, hsigned] at hoverflow
    exact ⟨difference_eq_mod hdigits (hlt _), out_iff_lt hdigits (hlt _), hoverflow⟩

/-! ## A sum of two limbs -/

/-- A machine that adds one to a number of two limbs, and in between one to a register. -/
def addingLimbs : Machine :=
  ⟨{ Registers.initial with ax := 0xff }, .onePage [0x14, 0x01, 0x43, 0x14, 0x00]⟩

/-- A machine that subtracts one from a number of two limbs, and loads the second in between. -/
def subtractingLimbs : Machine :=
  ⟨Registers.initial, .onePage [0x1c, 0x01, 0xb0, 0x01, 0x1c, 0x00]⟩

theorem combined_low {limb : Limb 8}
    (h : m.opcode? = some (Encoding.arithmetic operation.number 0x04)
      ∧ m.registers.byte .al = limb.first ∧ m.tailAt 0 = limb.second ∧ m.step.1 = .continued
      ∧ m.step.2.registers.byte .al = limb.result) : Combined operation .byte m limb m.step.2 := by
  obtain ⟨hbegins, hfirst, hsecond, hcontinued, hresult⟩ := h
  exact ⟨.register 0, combines_low hbegins hfirst hsecond, Prod.ext hcontinued rfl, hresult⟩

theorem passes_step (opcode : Byte) (h : m.opcode? = some opcode
      ∧ Encoding.passesCarry opcode (Encoding.field (m.tailAt 0)) = true
      ∧ m.step.1 = .continued) : m.Passes m.step.2 :=
  .single ⟨⟨opcode, h.1, h.2.1⟩, Prod.ext h.2.2 rfl⟩

/-- From 0x00ff to 0x0100. -/
def limbsAdded : List (Limb Width.byte.bits) := [⟨0xff#8, 0x01#8, 0x00#8⟩, ⟨0x00#8, 0x00#8, 0x01#8⟩]

/-- And back. -/
def limbsSubtracted : List (Limb Width.byte.bits) :=
  [⟨0x00#8, 0x01#8, 0xff#8⟩, ⟨0x01#8, 0x00#8, 0x00#8⟩]

theorem chain_addingLimbs : Chain Passes (Combined .adc .byte) addingLimbs limbsAdded
    addingLimbs.step.2.step.2.step.2 := by
  refine .cons .refl (combined_low ?_) <|
    .cons (passes_step 0x43 ?_) (combined_low ?_) (.nil _)
  all_goals decide +kernel

theorem chain_subtractingLimbs : Chain Passes (Combined .sbb .byte) subtractingLimbs
    limbsSubtracted subtractingLimbs.step.2.step.2.step.2 := by
  refine .cons .refl (combined_low ?_) <|
    .cons (passes_step 0xb0 ?_) (combined_low ?_) (.nil _)
  all_goals decide +kernel

theorem chain_adds_or_subtracts_addingLimbs :
    unsigned (limbsAdded.map (·.result)) = 0x0100
      ∧ addingLimbs.step.2.step.2.step.2.registers.flag .carry = false
      ∧ limbsSubtracted.map (·.result) = limbsAdded.map (·.first) := by
  have hmore : limbsAdded ≠ [] := nofun
  obtain ⟨hadds, -, -⟩ := chain_adds_or_subtracts (m := addingLimbs)
    (PagedMemory.built_onePage _) hmore
  obtain ⟨hvalue, hcarry, -, hrestores⟩ := hadds chain_addingLimbs
  refine ⟨hvalue.trans (by decide), ?_, ?_⟩
  · exact Bool.eq_false_iff.mpr fun hset => absurd (hcarry.mp hset) (by decide)
  · exact hrestores subtractingLimbs _ limbsSubtracted (PagedMemory.built_onePage _)
      (by decide) chain_subtractingLimbs rfl rfl

end Machine

end CmStream
