import CmStream.Proofs.Arithmetic.Combining
import CmStream.Proofs.Arithmetic.Quotients
import CmStream.Proofs.Machine.Granted
import CmStream.Proofs.Machine.Hazards

/-!
# Steps that multiply and divide

A step that multiplies leaves the whole product, or cuts it down and says whether that has cost
anything. A step that divides leaves a quotient and what remains, or stops for want of a quotient
with nothing done.
-/

namespace CmStream

open Arithmetic Encoding Instruction Microprogram

namespace Registers

variable (r : Registers) (width : Width)

theorem word_with_flags (flags : Word) (name : WordRegister) :
    { r with flags := flags }.word name = r.word name := by
  cases name <;> rfl

theorem get_with_flags (flags : Word) (index : RegisterIndex) :
    { r with flags := flags }.get width index = r.get width index := by
  cases width with
  | byte =>
    show byte _ _ = byte _ _
    unfold byte
    rw [word_with_flags]
  | word => exact r.word_with_flags flags _

/-- The accumulator and the register that extends it are two. -/
theorem get_halves (upper lower : BitVec width.bits) :
    ((r.set width accumulator lower).set width (extension width) upper).get width accumulator
        = lower
      ∧ ((r.set width accumulator lower).set width (extension width) upper).get width
          (extension width) = upper := by
  refine ⟨?_, get_set _ width _ upper⟩
  cases width with
  | byte => exact (Word.low_ofBytes _ _).trans (Word.low_ofBytes _ _)
  | word => rfl

/-- Accumulator and extension, put together. -/
theorem double_eq (signed : Bool) : r.double signed width
    = number signed (r.get width (extension width) ++ r.get width accumulator) := by
  cases signed with
  | false => exact (congrArg Nat.cast (Quotient.toNat_halves r width)).symm
  | true => exact (Quotient.toInt_halves r width).symm

theorem double_halves (signed : Bool) (upper lower : BitVec width.bits) :
    Registers.double ((r.set width accumulator lower).set width (extension width) upper) signed
      width = number signed (upper ++ lower) := by
  obtain ⟨haccumulator, hextension⟩ := r.get_halves width upper lower
  rw [double_eq, haccumulator, hextension]

theorem double_with_flags (flags : Word) (signed : Bool) :
    Registers.double { r with flags := flags } signed width = r.double signed width := by
  cases signed <;> cases width <;> rfl

end Registers

theorem Product.Halves.ofProduct {n : Nat} {product : Product.Halves n} {fits : Prop}
    (h : product.exceeds = true ↔ ¬ fits) (flags : Word) :
    Flags.OfProduct fits flags (product.setFlags flags) := by
  unfold setFlags
  refine ⟨?_, ?_, ((Flags.SameBut.refl _ flags).set ?_ _).set ?_ _⟩
  · simp [Flags.get_set, h]
  · simp [Flags.get_set, h]
  · exact List.mem_cons_self
  · exact List.mem_cons_of_mem _ List.mem_cons_self

namespace Machine

variable {m : Machine}

theorem ofByte_unaryOpcode (width : Width) :
    Opcode.ofByte (unaryOpcode width) = .instruction (.unaryGroup width) := by
  cases width <;> rfl

theorem ofByte_multiplyOpcode (short : Bool) :
    Opcode.ofByte (multiplyOpcode short) = .instruction (.multiplyBy short) := by
  cases short <;> rfl

/-- What the field chooses among the operations on one operand, if it is a product or a quotient. -/
theorem comesTo_unary {width : Width} (hunrefused : m.Unrefused)
    (hbegins : m.opcode? = some (unaryOpcode width)) (signed : Bool) :
    (field (m.tailAt 0) = productField signed →
      m.ComesTo (storeProduct width
        (Product.of (m.registers.get width accumulator) (m.formValue width) signed))
        (m.behindOpcode.past m.numberPlace))
    ∧ (field (m.tailAt 0) = divisionField signed →
      m.ComesTo (storeQuotient width (Quotient.of? signed
          (m.registers.get width (extension width)) (m.registers.get width accumulator)
          (m.formValue width)))
        (m.behindOpcode.past m.numberPlace)) := by
  obtain ⟨modifiers, hoverride, h⟩ :=
    comesTo_perform hunrefused hbegins (ofByte_unaryOpcode width) nofun
  unfold perform performUnaryGroup at h
  dsimp only at h
  rw [hoverride] at h
  obtain ⟨r, between, hr, h⟩ := (comesTo_loaded h).exists_ok Persists.registers
  cases hr
  dsimp only at h
  rw [get_behindOpcode, get_behindOpcode] at h
  refine ⟨fun hfield => ?_, fun hfield => ?_⟩
  · rw [hfield] at h
    cases signed <;> exact h
  · rw [hfield] at h
    cases signed <;> exact h

theorem multiplies {width : Width} {signed : Bool} (hunrefused : m.Unrefused)
    (hbegins : m.opcode? = some (unaryOpcode width))
    (hfield : field (m.tailAt 0) = productField signed) : m.Multiplies signed width := by
  obtain ⟨hrun, hcontinued⟩ :=
    ((comesTo_unary hunrefused hbegins signed).1 hfield).exists_continued (Persists.modify _)
  have hlast := congrArg Prod.snd hrun
  refine ⟨hcontinued, ?_, ?_⟩
  · rw [← hlast]
    exact (Registers.double_with_flags _ _ _ _).trans
      ((Registers.double_halves _ width signed _ _).trans
        (Product.number_halves _ _ signed width.bits_pos))
  · have hflags := Product.Halves.ofProduct (Product.exceeds_iff
      (m.registers.get width accumulator) (m.formValue width) signed) m.registers.flags
    rw [← hlast, storeProduct, run_modifyRegisters]
    dsimp only
    rw [Registers.flags_set, Registers.flags_set]
    exact hflags

theorem multipliesByNumber {short : Bool} (hunrefused : m.Unrefused)
    (hbegins : m.opcode? = some (multiplyOpcode short)) : m.MultipliesByNumber short := by
  obtain ⟨modifiers, hoverride, h⟩ :=
    comesTo_perform hunrefused hbegins (ofByte_multiplyOpcode short) nofun
  unfold perform performMultiplyBy at h
  dsimp only at h
  rw [hoverride] at h
  obtain ⟨factor, between, hfactor, h⟩ := (comesTo_loaded h).exists_ok (persists_fetchNumber _ _)
  have hseen : factor = m.factor short ∧ ∃ count, between = m.behindOpcode.past count := by
    unfold Machine.factor
    cases short with
    | false => exact seen_fetchNumber hfactor
    | true =>
      obtain ⟨rfl, rfl⟩ := seen_fetchSigned hfactor
      rw [nextByte_behindOpcode_past]
      exact ⟨rfl, _, (past_add _ 1 _).symm⟩
  obtain ⟨rfl, count, rfl⟩ := hseen
  obtain ⟨hrun, hcontinued⟩ :=
    h.exists_continued (.bind (Persists.modify _) fun _ => Persists.modify _)
  have hlast := congrArg Prod.snd hrun
  refine ⟨hcontinued, ?_, ?_⟩
  · rw [← hlast]
    exact (Registers.get_with_flags _ .word _ _).trans (Registers.get_set _ .word _ _)
  · have hflags := Product.Halves.ofProduct
      (Product.exceeds_iff (m.formValue .word) (m.factor short) true) m.registers.flags
    rw [← hlast, setRegister, run_bind_of_ok _ (run_modifyRegisters _), run_modifyRegisters]
    dsimp only
    rw [Registers.flags_set]
    exact hflags

theorem dividesExactly {width : Width} {signed : Bool} (hunrefused : m.Unrefused)
    (hbegins : m.opcode? = some (unaryOpcode width))
    (hfield : field (m.tailAt 0) = divisionField signed) :
    m.DividesExactly signed width (m.registers.double signed width)
      (number signed (m.formValue width)) := by
  have h := (comesTo_unary hunrefused hbegins signed).2 hfield
  rw [Registers.double_eq]
  cases hresult : Quotient.of? signed (m.registers.get width (extension width))
      (m.registers.get width accumulator) (m.formValue width) with
  | none =>
    have hnone := Quotient.of?_eq_none_iff.mp hresult
    rw [hresult] at h
    have hstep := h.stopped .divideError _ rfl
    refine ⟨iff_of_true ?_ hnone, fun _ => ?_, fun hquotient => absurd hquotient hnone,
      fun hquotient => absurd hquotient hnone, ?_⟩
    · rw [hstep]
    · rw [hstep]
      rfl
    · rw [hstep]
      rfl
  | some result =>
    have hquotient := not_not.mp (mt Quotient.of?_eq_none_iff.mpr (by rw [hresult]; exact nofun))
    rw [hresult] at h
    obtain ⟨hrun, hcontinued⟩ := h.exists_continued (Persists.modify _)
    have hlast := congrArg Prod.snd hrun
    refine ⟨iff_of_false (fun hstopped => ?_) (not_not.mpr hquotient),
      fun hnone => absurd hquotient hnone, fun _ => hcontinued, fun _ => ?_, ?_⟩
    · rw [hcontinued] at hstopped
      cases hstopped
    · obtain ⟨haccumulator, hextension⟩ := Registers.get_halves
        (m.behindOpcode.past m.numberPlace).registers width result.remainder result.quotient
      have hleft : m.step.2.registers.get width accumulator = result.quotient := by
        rw [← hlast]
        exact haccumulator
      have hremains : m.step.2.registers.get width (extension width) = result.remainder := by
        rw [← hlast]
        exact hextension
      rw [hleft, hremains]
      exact Quotient.divides_of_of?_eq_some hresult
    · rw [← hlast]
      exact (Registers.flags_set _ _ _ _).trans (Registers.flags_set _ _ _ _)

/-- Multiplications leave the whole product, or its lower half, and carry and overflow say whether
it is more than that; divisions truncate toward zero and stop just if there is no quotient of the
width, with nothing done but that the instruction has been fetched. -/
theorem step_multiplies_and_divides (hunrefused : m.Unrefused) :
    (∀ width signed, m.opcode? = some (unaryOpcode width) →
        field (m.tailAt 0) = productField signed → m.Multiplies signed width)
      ∧ (∀ short, m.opcode? = some (multiplyOpcode short) → m.MultipliesByNumber short)
      ∧ ∀ width signed, m.opcode? = some (unaryOpcode width) →
        field (m.tailAt 0) = divisionField signed →
        m.DividesExactly signed width (m.registers.double signed width)
          (number signed (m.formValue width)) :=
  ⟨fun _ _ => multiplies hunrefused, fun _ => multipliesByNumber hunrefused,
    fun _ _ => dividesExactly hunrefused⟩

/-- A machine that divides the least dividend that has a quotient by one. -/
def dividingLeast : Machine :=
  ⟨{ Registers.initial with ax := 0x8000, bx := 1, dx := 0xffff }, .onePage [0xf7, 0xfb]⟩

theorem step_multiplies_and_divides_dividingLeast :
    dividingLeast.Unrefused ∧ QuotientFits true 16 (-0x8000) 1
      ∧ dividingLeast.DividesExactly true .word (-0x8000) 1 := by
  have hunrefused : dividingLeast.Unrefused := unrefused_of_continued (by decide +kernel)
  have hnumbers : dividingLeast.registers.double true .word = -0x8000
      ∧ number true (dividingLeast.formValue .word) = 1 := by decide +kernel
  have hdivides := (step_multiplies_and_divides hunrefused).2.2 .word true (by decide +kernel)
    (by decide +kernel)
  rw [hnumbers.1, hnumbers.2] at hdivides
  exact ⟨hunrefused, ⟨by decide, 0x8000, by decide⟩, hdivides⟩

end Machine

end CmStream
