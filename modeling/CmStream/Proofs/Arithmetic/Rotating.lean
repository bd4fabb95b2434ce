import CmStream.Proofs.Arithmetic.Shifting
import CmStream.Proofs.Machine.FlagKeeping

/-!
# Steps that rotate

A rotation moves bits and loses none, so the rotation the other way by the same count takes them
back: those of the operand, and the carry as well if it is part of the ring.
-/

namespace CmStream

namespace Shift

variable {n : Nat} (value : BitVec n) (carry : Bool) (k : Nat)

/-- To the left and to the right by the same number of places. -/
theorem total_ror_total_rol (carry' : Bool) :
    (ror.total (rol.total value carry k).value carry' k).value = value :=
  rotateRight_rotateLeft value k

theorem total_rcr_total_rcl :
    (rcr.total (rcl.total value carry k).value (rcl.total value carry k).carry k).value = value
      ∧ (rcr.total (rcl.total value carry k).value (rcl.total value carry k).carry k).carry
        = carry := by
  unfold total
  dsimp only
  rw [BitVec.cons_msb_setWidth, rotateRight_rotateLeft, BitVec.setWidth_cons, BitVec.msb_cons]
  exact ⟨rfl, rfl⟩

end Shift

namespace Machine

variable {m : Machine} {shift : Shift} {width : Width} {count : Byte}

theorem Shifts.rotatesTo (h : m.Shifts shift width count) (hrotation : shift.isRotation = true)
    (hunrefused : m.Unrefused) (hbuilt : m.memory.Built) (hk : count.toNat % 32 ≠ 0) :
    m.ShiftsTo width
      (shift.total (m.formValue width) (m.registers.flag .carry) (count.toNat % 32))
      [.carry, .overflow] := by
  obtain ⟨hvalue, hflags⟩ := h.step_of_ne_zero hunrefused hbuilt hk
  rw [hrotation, if_pos rfl] at hflags
  obtain ⟨hcarry, hoverflow⟩ := Shift.State.get_setFlags
    (shift.total (m.formValue width) (m.registers.flag .carry) (count.toNat % 32))
    m.registers.flags
  refine ⟨hvalue, ?_, ?_, ?_⟩
  · rw [Registers.flag, hflags]
    exact hcarry
  · rw [Registers.flag, hflags]
    exact hoverflow
  · rw [hflags]
    exact Shift.State.sameBut_setFlags _ _

/-- A step that goes on with the same operand finds what the one before has left. -/
theorem formValue_step (hsame : m.step.2.formOperand = m.formOperand) :
    m.step.2.formValue width = m.formOperand.value width m.step.2 := by
  rw [← value_formOperand, hsame]

section Back

variable (hsame : m.step.2.formOperand = m.formOperand) (hunrefused : m.Unrefused)
  (hunrefused' : m.step.2.Unrefused) (hbuilt : m.memory.Built)

include hsame hunrefused hunrefused' hbuilt

theorem Shifts.rol_ror (h : m.Shifts .rol width count)
    (hback : m.step.2.Shifts .ror width count) :
    m.formOperand.value width m.step.2.step.2 = m.formValue width := by
  have hbuilt' : m.step.2.memory.Built := built_after 1 hbuilt
  by_cases hk : count.toNat % 32 = 0
  · have hvalue := (hback.step_of_zero hunrefused' hbuilt' hk).1
    rwa [formValue_step hsame, hsame, (h.step_of_zero hunrefused hbuilt hk).1] at hvalue
  · have hvalue := (hback.rotatesTo rfl hunrefused' hbuilt' hk).value
    rw [formValue_step hsame, hsame, (h.rotatesTo rfl hunrefused hbuilt hk).value] at hvalue
    exact hvalue.trans (Shift.total_ror_total_rol _ _ _ _)

theorem Shifts.rcl_rcr (h : m.Shifts .rcl width count)
    (hback : m.step.2.Shifts .rcr width count) :
    m.formOperand.value width m.step.2.step.2 = m.formValue width
      ∧ m.step.2.step.2.registers.flag .carry = m.registers.flag .carry := by
  have hbuilt' : m.step.2.memory.Built := built_after 1 hbuilt
  by_cases hk : count.toNat % 32 = 0
  · obtain ⟨hvalue, hflags⟩ := hback.step_of_zero hunrefused' hbuilt' hk
    obtain ⟨hvalue', hflags'⟩ := h.step_of_zero hunrefused hbuilt hk
    rw [formValue_step hsame, hsame, hvalue'] at hvalue
    exact ⟨hvalue, congrArg (Flags.get · .carry) (hflags.trans hflags')⟩
  · have hrotated := h.rotatesTo rfl hunrefused hbuilt hk
    have hrotated' := hback.rotatesTo rfl hunrefused' hbuilt' hk
    have hvalue := hrotated'.value
    have hcarry := hrotated'.carry
    obtain ⟨hvalues, hcarries⟩ := Shift.total_rcr_total_rcl (m.formValue width)
      (m.registers.flag .carry) (count.toNat % 32)
    rw [formValue_step hsame, hsame, hrotated.value, hrotated.carry] at hvalue
    rw [formValue_step hsame, hrotated.value, hrotated.carry] at hcarry
    exact ⟨hvalue.trans hvalues, hcarry.trans hcarries⟩

end Back

/-- Rotations are rotations, for every operand and every count: of the operand alone, or of the ring
that it makes up with the carry. Other flags than carry and overflow stay, and all of them stay if
the count is zero up to whole thirty-twos. A rotation to the left is undone by the one to the right,
if that has the same count and operand. -/
theorem step_rotate (h : m.Shifts shift width count) (hrotation : shift.isRotation = true)
    (hunrefused : m.Unrefused) (hbuilt : m.memory.Built) :
    m.step.1 = .continued
      ∧ (count.toNat % 32 = 0 → m.formOperand.value width m.step.2 = m.formValue width
        ∧ m.step.2.registers.flags = m.registers.flags)
      ∧ (count.toNat % 32 ≠ 0 → m.ShiftsTo width
        (shift.total (m.formValue width) (m.registers.flag .carry) (count.toNat % 32))
        [.carry, .overflow])
      ∧ (m.step.2.formOperand = m.formOperand → m.step.2.Unrefused →
        (shift = .rol → m.step.2.Shifts .ror width count →
          m.formOperand.value width m.step.2.step.2 = m.formValue width)
        ∧ (shift = .rcl → m.step.2.Shifts .rcr width count →
          m.formOperand.value width m.step.2.step.2 = m.formValue width
            ∧ m.step.2.step.2.registers.flag .carry = m.registers.flag .carry)) := by
  refine ⟨(h.step_eq hunrefused hbuilt).1, h.step_of_zero hunrefused hbuilt,
    h.rotatesTo hrotation hunrefused hbuilt, fun hsame hunrefused' => ⟨?_, ?_⟩⟩
  · rintro rfl hback
    exact h.rol_ror hsame hunrefused hunrefused' hbuilt hback
  · rintro rfl hback
    exact h.rcl_rcr hsame hunrefused hunrefused' hbuilt hback

/-- A machine that rotates a byte with the carry more than once around, and back again. -/
def rotating : Machine :=
  ⟨{ Registers.initial with bx := 0x81, flags := 0x0003 },
    .onePage [0xc0, 0xd3, 0x1f, 0xc0, 0xdb, 0x1f]⟩

theorem step_rotate_rotating :
    rotating.Shifts .rcl .byte 0x1f ∧ rotating.step.2.Shifts .rcr .byte 0x1f
      ∧ rotating.formOperand.value .byte rotating.step.2.step.2 = 0x81
      ∧ rotating.step.2.step.2.registers.flag .carry = true := by
  have hplaces : rotating.tailAt rotating.numberPlace = 0x1f
      ∧ rotating.step.2.tailAt rotating.step.2.numberPlace = 0x1f
      ∧ rotating.step.2.formOperand = rotating.formOperand
      ∧ rotating.formValue .byte = 0x81 ∧ rotating.registers.flag .carry = true := by
    decide +kernel
  obtain ⟨hplace, hplace', hsame, hvalue, hcarry⟩ := hplaces
  have hshifts : rotating.Shifts .rcl .byte 0x1f := by
    rw [← hplace]
    exact .immediate (by decide +kernel) (by decide +kernel)
  have hback : rotating.step.2.Shifts .rcr .byte 0x1f := by
    rw [← hplace']
    exact .immediate (by decide +kernel) (by decide +kernel)
  have hunrefused : rotating.Unrefused := unrefused_of_continued (by decide +kernel)
  have hunrefused' : rotating.step.2.Unrefused := unrefused_of_continued (by decide +kernel)
  obtain ⟨-, -, -, hundone⟩ :=
    step_rotate hshifts rfl hunrefused (PagedMemory.built_onePage _)
  have hrestored := (hundone hsame hunrefused').2 rfl hback
  rw [hvalue, hcarry] at hrestored
  exact ⟨hshifts, hback, hrestored⟩

end Machine

end CmStream
