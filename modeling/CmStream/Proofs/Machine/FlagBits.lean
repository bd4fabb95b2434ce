import CmStream.Machine.Decimal
import CmStream.Machine.Product
import CmStream.Machine.Shift

/-!
# Bits of the flags word without a meaning

Seven bits of the flags word are no flags. A flags word is well formed if the lowest of them is
one and the others are zero. Setting a flag leaves these bits alone, and loading the whole word
puts them right; every computation changes flags in one of these two ways.
-/

namespace CmStream

namespace Flags

variable {before between after flags : Word}

/-- Bit 1 is one, and the other bits without a meaning are zero. -/
def WellFormed (flags : Word) : Prop := flags.getLsbD 1 = true ∧ flags &&& 0xf028 = 0

/-- The bits without a meaning. -/
def meaningless : Word := 0xf02a

/-- The bits without a meaning are as they were before, or as loading leaves them. -/
def Settled (before after : Word) : Prop :=
  after &&& meaningless = before &&& meaningless ∨ after &&& meaningless = none

theorem wellFormed_iff : WellFormed flags ↔ flags &&& meaningless = none := by
  constructor
  · rintro ⟨hone, hzero⟩
    have hlowest : flags &&& BitVec.twoPow 16 1 = BitVec.twoPow 16 1 := by
      rw [BitVec.and_twoPow, if_pos hone]
    calc flags &&& meaningless = (flags &&& 0xf028) ||| (flags &&& BitVec.twoPow 16 1) :=
          BitVec.and_or_distrib_left (x := flags) (y := 0xf028) (z := BitVec.twoPow 16 1)
      _ = none := by rw [hzero, hlowest]; rfl
  · intro h
    constructor
    · have hbit := congrArg (·.getLsbD 1) h
      simpa [meaningless, none] using hbit
    · have hnarrow : meaningless &&& 0xf028 = 0xf028 := by decide
      rw [← hnarrow, ← BitVec.and_assoc, h]
      decide

theorem Settled.refl (flags : Word) : Settled flags flags := .inl rfl

theorem Settled.of_eq (h : after = before) : Settled before after := .inl (by rw [h])

theorem Settled.trans (h : Settled before between) (h' : Settled between after) :
    Settled before after := by
  rcases h' with hsame | hnone
  · rcases h with hbefore | hbetween
    · exact .inl (hsame.trans hbefore)
    · exact .inr (hsame.trans hbetween)
  · exact .inr hnone

theorem WellFormed.settled (h : WellFormed before) (hsettled : Settled before after) :
    WellFormed after := by
  rw [wellFormed_iff] at h ⊢
  rcases hsettled with hsame | hnone
  · exact hsame.trans h
  · exact hnone

theorem wellFormed_none : WellFormed none := by
  constructor <;> decide

/-- Loading a well-formed flags word changes nothing. -/
theorem load_of_wellFormed (h : WellFormed flags) : load flags = flags := by
  have hall : meaningful ||| meaningless = BitVec.allOnes 16 := by decide
  calc load flags = (flags &&& meaningful) ||| (flags &&& meaningless) := by
        rw [wellFormed_iff.mp h, load]
    _ = flags := by rw [← BitVec.and_or_distrib_left, hall, BitVec.and_allOnes]

/-! ## Changes -/

theorem settled_load (before value : Word) : Settled before (load value) := by
  have hmeaningful : meaningful &&& meaningless = 0#16 := by decide
  have hnone : none &&& meaningless = none := by decide
  right
  rw [load, BitVec.and_or_distrib_right, BitVec.and_assoc, hmeaningful, hnone, BitVec.and_zero,
    BitVec.zero_or]

theorem settled_set (flags : Word) (flag : Flag) (value : Bool) :
    Settled flags (set flags flag value) := by
  have hmask : flag.mask &&& meaningless = 0#16 := by cases flag <;> decide
  have hothers : ~~~flag.mask &&& meaningless = meaningless := by cases flag <;> decide
  left
  unfold set
  cases value with
  | true => rw [if_pos rfl, BitVec.and_or_distrib_right, hmask, BitVec.or_zero]
  | false => rw [if_neg Bool.false_ne_true, BitVec.and_assoc, hothers]

theorem Settled.set (h : Settled before after) (flag : Flag) (value : Bool) :
    Settled before (Flags.set after flag value) :=
  h.trans (settled_set after flag value)

theorem Settled.describe {n : Nat} (h : Settled before after) (value : BitVec n) :
    Settled before (Flags.describe after value) :=
  ((h.set _ _).set _ _).set _ _

end Flags

/-! ## Computations -/

open Flags

namespace Arithmetic

variable {n : Nat} (a b : BitVec n) (flags : Word)

theorem settled_add (carry : Bool) : Settled flags (add a b carry flags).flags :=
  ((((Settled.refl flags).set _ _).set _ _).set _ _).describe _

theorem settled_subtract (borrow : Bool) : Settled flags (subtract a b borrow flags).flags :=
  ((((Settled.refl flags).set _ _).set _ _).set _ _).describe _

theorem settled_bitwise : Settled flags (bitwise a flags).flags :=
  ((((Settled.refl flags).set _ _).set _ _).set _ _).describe _

theorem settled_increment : Settled flags (increment a flags).flags :=
  (settled_add a _ flags false).set _ _

theorem settled_decrement : Settled flags (decrement a flags).flags :=
  (settled_subtract a _ flags false).set _ _

theorem settled_compute (operation : Operation) :
    Settled flags (operation.compute a b flags).flags := by
  cases operation with
  | add => exact settled_add a b flags _
  | or => exact settled_bitwise _ flags
  | adc => exact settled_add a b flags _
  | sbb => exact settled_subtract a b flags _
  | and => exact settled_bitwise _ flags
  | sub => exact settled_subtract a b flags _
  | xor => exact settled_bitwise _ flags
  | cmp => exact settled_subtract a b flags _

end Arithmetic

theorem Shift.settled_compute {n : Nat} (shift : Shift) (value : BitVec n) (count : Byte)
    (flags : Word) : Settled flags (shift.compute value count flags).flags := by
  unfold compute
  split
  case isTrue => exact Settled.refl flags
  case isFalse =>
    have hends : ∀ carry overflow,
        Settled flags (set (set flags .carry carry) .overflow overflow) := fun carry overflow =>
      ((Settled.refl flags).set .carry carry).set .overflow overflow
    dsimp only
    split
    case isTrue => exact hends _ _
    case isFalse => exact (hends _ _).describe _

theorem Product.Halves.settled_setFlags {n : Nat} (halves : Halves n) (flags : Word) :
    Settled flags (halves.setFlags flags) :=
  ((Settled.refl flags).set _ _).set _ _

namespace Decimal

theorem settled_adjustSum (al : Byte) (flags : Word) :
    Settled flags (adjustSum al flags).flags :=
  (((Settled.refl flags).set _ _).set _ _).describe _

theorem settled_adjustDifference (al : Byte) (flags : Word) :
    Settled flags (adjustDifference al flags).flags :=
  (((Settled.refl flags).set _ _).set _ _).describe _

theorem settled_unpacked (corrected ax : Word) (off : Bool) (flags : Word) :
    Settled flags (unpacked corrected ax off flags).flags :=
  ((Settled.refl flags).set _ _).set _ _

theorem settled_adjustUnpackedSum (ax flags : Word) :
    Settled flags (adjustUnpackedSum ax flags).flags :=
  settled_unpacked _ _ _ _

theorem settled_adjustUnpackedDifference (ax flags : Word) :
    Settled flags (adjustUnpackedDifference ax flags).flags :=
  settled_unpacked _ _ _ _

theorem settled_join (base : Byte) (ax flags : Word) :
    Settled flags (join base ax flags).flags :=
  (Settled.refl flags).describe _

end Decimal

end CmStream
