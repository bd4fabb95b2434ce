import CmStream.Proofs.Arithmetic.Combining
import CmStream.Proofs.Arithmetic.Shifts
import CmStream.Proofs.Machine.Granted

/-!
# Steps that shift

A step that shifts by a count of zero changes nothing but the instruction pointer. By any other
count it leaves its operand shifted by all places at once, and flags that go with the last of them.
-/

namespace CmStream

open Encoding Instruction Microprogram

namespace Shift

variable {n : Nat} {shift : Shift} {value : BitVec n} {count : Byte} {flags : Word}

theorem ofIndex_of_mem {field : BitVec 3} (h : field ∈ shiftFields shift) :
    ofIndex field = shift := by
  have hall : ∀ field, field ∈ shiftFields shift → ofIndex field = shift := by
    cases shift <;> decide
  exact hall field h

theorem compute_of_zero (hk : places count = 0) :
    shift.compute value count flags = ⟨value, flags⟩ :=
  if_pos hk

/-- Carry and overflow of the last place. -/
def State.setFlags (last : State n) (flags : Word) : Word :=
  Flags.set (Flags.set flags .carry last.carry) .overflow last.overflow

theorem compute_of_ne_zero (hn : 1 < n) (hk : places count ≠ 0) :
    shift.compute value count flags =
      let last := shift.total value (Flags.get flags .carry) (places count)
      ⟨last.value, if shift.isRotation then last.setFlags flags
        else Flags.describe (last.setFlags flags) last.value⟩ := by
  unfold compute
  dsimp only
  rw [if_neg hk, repeat_place hn shift _ hk]
  rfl

theorem State.sameBut_setFlags (last : State n) (flags : Word) :
    Flags.SameBut [.carry, .overflow] flags (last.setFlags flags) :=
  ((Flags.SameBut.refl _ flags).set List.mem_cons_self _).set
    (List.mem_cons_of_mem _ List.mem_cons_self) _

theorem State.get_setFlags (last : State n) (flags : Word) :
    Flags.get (last.setFlags flags) .carry = last.carry
      ∧ Flags.get (last.setFlags flags) .overflow = last.overflow := by
  unfold setFlags
  simp [Flags.get_set]

end Shift

theorem Flags.describes_describe {n : Nat} (flags : Word) (value : BitVec n) :
    Flags.Describes (Flags.describe flags value) value := by
  obtain ⟨hzero, hsign, hparity⟩ := Arithmetic.get_describe flags value
  exact ⟨hzero, hsign, hparity⟩

theorem Flags.get_describe_of_ne {n : Nat} (flags : Word) (value : BitVec n) {flag : Flag}
    (hother : flag ∉ [Flag.zero, .sign, .parity]) :
    Flags.get (Flags.describe flags value) flag = Flags.get flags flag := by
  simp only [List.mem_cons, List.not_mem_nil, or_false, not_or] at hother
  obtain ⟨hzero, hsign, hparity⟩ := hother
  unfold Flags.describe
  rw [Flags.get_set, if_neg (Ne.symm hparity), Flags.get_set, if_neg (Ne.symm hsign),
    Flags.get_set, if_neg (Ne.symm hzero)]

/-- The flags that describe a result differ, too. -/
theorem Flags.SameBut.describe {n : Nat} {changed changed' : List Flag} {before after : Word}
    (h : SameBut changed before after) (hmore : ∀ flag ∈ changed, flag ∈ changed')
    (hdescribing : ∀ flag ∈ [Flag.zero, .sign, .parity], flag ∈ changed') (value : BitVec n) :
    SameBut changed' before (Flags.describe after value) := by
  have h' : SameBut changed' before after := fun i hother =>
    h i fun flag hflag => hother flag (hmore flag hflag)
  simp only [List.forall_mem_cons] at hdescribing
  obtain ⟨hzero, hsign, hparity, -⟩ := hdescribing
  exact ((h'.set hzero _).set hsign _).set hparity _

namespace Machine

variable {m : Machine} {shift : Shift} {width : Width} {count : Byte}

/-- Once the count is known, the operand is loaded, shifted and stored. -/
theorem shifted_of_comesTo {i : Nat} (hbuilt : m.memory.Built)
    (h : m.ComesTo (do
      let value ← m.formOperand.load width
      let shifted ← settle (shift.compute value count)
      m.formOperand.store width shifted) (m.behindOpcode.past i)) :
    m.step.1 = .continued
      ∧ m.formOperand.value width m.step.2
        = (shift.compute (m.formValue width) count m.registers.flags).value
      ∧ m.step.2.registers.flags
        = (shift.compute (m.formValue width) count m.registers.flags).flags := by
  obtain ⟨hrun, hcontinued⟩ := h.exists_continued (persists_shift width shift _ count)
  obtain ⟨value, between, hload, hrest⟩ := run_bind_eq_ok hrun
  obtain ⟨rfl, rfl⟩ := seen_loadForm hload
  obtain ⟨shifted, between, hsettle, hstore⟩ := run_bind_eq_ok hrest
  cases hsettle
  exact ⟨hcontinued, value_storeOperand hstore hbuilt hload rfl, flags_storeOperand hstore⟩

/-- A step that shifts computes the shift of its operand. -/
theorem Shifts.step_eq (h : m.Shifts shift width count) (hunrefused : m.Unrefused)
    (hbuilt : m.memory.Built) :
    m.step.1 = .continued
      ∧ m.formOperand.value width m.step.2
        = (shift.compute (m.formValue width) count m.registers.flags).value
      ∧ m.step.2.registers.flags
        = (shift.compute (m.formValue width) count m.registers.flags).flags := by
  cases h with
  | immediate begins chooses =>
    have hopcode : Opcode.ofByte (wide 0xc0 width)
        = .instruction (.shiftGroup width .immediate) := by cases width <;> rfl
    obtain ⟨modifiers, hoverride, h⟩ := comesTo_perform hunrefused begins hopcode nofun
    rw [perform, performShiftGroup, hoverride] at h
    obtain ⟨count, between, hcount, h⟩ := (comesTo_operands h).exists_ok Persists.fetchByte
    obtain ⟨rfl, rfl⟩ := seen_fetchByte hcount
    rw [← past_add, nextByte_behindOpcode_past, Shift.ofIndex_of_mem chooses] at h
    exact shifted_of_comesTo hbuilt h
  | one begins chooses =>
    have hopcode : Opcode.ofByte (wide 0xd0 width)
        = .instruction (.shiftGroup width .one) := by cases width <;> rfl
    obtain ⟨modifiers, hoverride, h⟩ := comesTo_perform hunrefused begins hopcode nofun
    rw [perform, performShiftGroup, hoverride] at h
    have h := comesTo_operands h
    rw [Shift.ofIndex_of_mem chooses] at h
    exact shifted_of_comesTo hbuilt h
  | counter begins chooses =>
    have hopcode : Opcode.ofByte (wide 0xd2 width)
        = .instruction (.shiftGroup width .counter) := by cases width <;> rfl
    obtain ⟨modifiers, hoverride, h⟩ := comesTo_perform hunrefused begins hopcode nofun
    rw [perform, performShiftGroup, hoverride] at h
    obtain ⟨count, between, hcount, h⟩ :=
      (comesTo_operands h).exists_ok (persists_getRegister .byte 1)
    cases hcount
    rw [get_behindOpcode, Shift.ofIndex_of_mem chooses] at h
    exact shifted_of_comesTo hbuilt h

/-- By a count of zero places nothing is shifted. -/
theorem Shifts.step_of_zero (h : m.Shifts shift width count) (hunrefused : m.Unrefused)
    (hbuilt : m.memory.Built) (hk : Shift.places count = 0) :
    m.formOperand.value width m.step.2 = m.formValue width
      ∧ m.step.2.registers.flags = m.registers.flags := by
  obtain ⟨-, hvalue, hflags⟩ := h.step_eq hunrefused hbuilt
  rw [Shift.compute_of_zero hk] at hvalue hflags
  exact ⟨hvalue, hflags⟩

/-- By any other count the operand is shifted by all places at once. -/
theorem Shifts.step_of_ne_zero (h : m.Shifts shift width count) (hunrefused : m.Unrefused)
    (hbuilt : m.memory.Built) (hk : count.toNat % 32 ≠ 0) :
    let last := shift.total (m.formValue width) (m.registers.flag .carry) (count.toNat % 32)
    m.formOperand.value width m.step.2 = last.value
      ∧ m.step.2.registers.flags = if shift.isRotation then last.setFlags m.registers.flags
        else Flags.describe (last.setFlags m.registers.flags) last.value := by
  obtain ⟨-, hvalue, hflags⟩ := h.step_eq hunrefused hbuilt
  rw [Shift.compute_of_ne_zero (Nat.lt_trans (by decide) width.four_lt_bits) hk] at hvalue hflags
  exact ⟨hvalue, hflags⟩

/-- Shifts to the left and to the right have their closed form, for every operand and every count:
the value, the bit that goes out last as the carry, overflow, and the flags that describe a result.
Other flags stay, and all of them stay if the count is zero up to whole thirty-twos. -/
theorem step_shift (h : m.Shifts shift width count) (hshift : shift.isRotation = false)
    (hunrefused : m.Unrefused) (hbuilt : m.memory.Built) :
    m.step.1 = .continued
      ∧ (count.toNat % 32 = 0 → m.formOperand.value width m.step.2 = m.formValue width
        ∧ m.step.2.registers.flags = m.registers.flags)
      ∧ (count.toNat % 32 ≠ 0 →
        m.ShiftsTo width
            (shift.total (m.formValue width) (m.registers.flag .carry) (count.toNat % 32))
            [.carry, .overflow, .zero, .sign, .parity]
          ∧ Flags.Describes m.step.2.registers.flags (m.formOperand.value width m.step.2)) := by
  refine ⟨(h.step_eq hunrefused hbuilt).1, h.step_of_zero hunrefused hbuilt, fun hk => ?_⟩
  obtain ⟨hvalue, hflags⟩ := h.step_of_ne_zero hunrefused hbuilt hk
  rw [hshift, if_neg Bool.false_ne_true] at hflags
  obtain ⟨hcarry, hoverflow⟩ := Shift.State.get_setFlags
    (shift.total (m.formValue width) (m.registers.flag .carry) (count.toNat % 32))
    m.registers.flags
  refine ⟨⟨hvalue, ?_, ?_, ?_⟩, ?_⟩
  · rw [Registers.flag, hflags, Flags.get_describe_of_ne _ _ (by decide)]
    exact hcarry
  · rw [Registers.flag, hflags, Flags.get_describe_of_ne _ _ (by decide)]
    exact hoverflow
  · rw [hflags]
    exact (Shift.State.sameBut_setFlags _ _).describe (by decide) (by decide) _
  · rw [hflags, hvalue]
    exact Flags.describes_describe _ _

/-- A machine that shifts the largest byte to the right by one place more than it has, and by
thirty-two. -/
def shifting : Machine :=
  ⟨{ Registers.initial with bx := 0xff }, .onePage [0xc0, 0xeb, 0x29]⟩

theorem step_shift_shifting :
    shifting.Shifts .shr .byte 0x29 ∧ shifting.ShiftsTo .byte ⟨0, false, false⟩
      [.carry, .overflow, .zero, .sign, .parity] := by
  have hplace : shifting.tailAt shifting.numberPlace = 0x29 := by decide +kernel
  have hshifts : shifting.Shifts .shr .byte 0x29 := by
    rw [← hplace]
    exact .immediate (by decide +kernel) (by decide +kernel)
  have hunrefused : shifting.Unrefused := unrefused_of_continued (by decide +kernel)
  obtain ⟨-, -, hshifted⟩ := step_shift hshifts rfl hunrefused (PagedMemory.built_onePage _)
  have htotal : Shift.shr.total (shifting.formValue .byte) (shifting.registers.flag .carry)
      ((0x29 : Byte).toNat % 32) = ⟨0, false, false⟩ := by decide +kernel
  rw [← htotal]
  exact ⟨hshifts, (hshifted (by decide)).1⟩

end Machine

end CmStream
