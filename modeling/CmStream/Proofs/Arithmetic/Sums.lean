import CmStream.Machine.Arithmetic
import Mathlib.Tactic.Ring

/-!
# What the flags tell of a sum and of a difference

The flags are computed from single bits of the operands and of the result. What they tell is about
numbers: whether the result without a bound would have been a number of the width, unsigned, signed,
or in the lowest four bits alone. A difference is what has to be added to get the first operand
back, so it needs no bits of its own.
-/

namespace CmStream

namespace Arithmetic

variable {n : Nat} {x : Int}

/-! ## Numbers of a width -/

/-- The number is what some `n` bits stand for. -/
def IsUnsigned (n : Nat) (x : Int) : Prop := ∃ value : BitVec n, (value.toNat : Int) = x

/-- The number is what some `n` bits stand for in two's complement. -/
def IsSigned (n : Nat) (x : Int) : Prop := ∃ value : BitVec n, value.toInt = x

/-- Cut down to the width, a number is the same just if it is one of the width. -/
theorem isUnsigned_iff {value : BitVec n} (h : BitVec.ofInt n x = value) :
    IsUnsigned n x ↔ (value.toNat : Int) = x := by
  refine ⟨?_, fun hvalue => ⟨value, hvalue⟩⟩
  rintro ⟨other, rfl⟩
  rw [← h, BitVec.ofInt_natCast, BitVec.ofNat_toNat, BitVec.setWidth_eq]

theorem isSigned_iff {value : BitVec n} (h : BitVec.ofInt n x = value) :
    IsSigned n x ↔ value.toInt = x := by
  refine ⟨?_, fun hvalue => ⟨value, hvalue⟩⟩
  rintro ⟨other, rfl⟩
  rw [← h, BitVec.ofInt_toInt]

/-- A number that is not too large for the width is one of the width unless it is negative. -/
theorem isUnsigned_iff_nonneg {bound : BitVec n} (h : x ≤ bound.toNat) :
    IsUnsigned n x ↔ 0 ≤ x := by
  constructor
  · rintro ⟨value, rfl⟩
    exact Int.natCast_nonneg _
  · intro hnonneg
    obtain ⟨k, rfl⟩ := Int.eq_ofNat_of_zero_le hnonneg
    have hlt : k < 2 ^ n := Nat.lt_of_le_of_lt (Int.ofNat_le.mp h) bound.isLt
    exact ⟨BitVec.ofNat n k, congrArg Nat.cast (Nat.mod_eq_of_lt hlt)⟩

theorem isUnsigned_four : IsUnsigned 4 x ↔ 0 ≤ x ∧ x < 16 := by
  constructor
  · rintro ⟨value, rfl⟩
    have hlt := value.isLt
    omega
  · rintro ⟨hnonneg, hlt⟩
    have hbound : x ≤ (15#4).toNat := Int.le_of_lt_add_one hlt
    exact (isUnsigned_iff_nonneg hbound).mpr hnonneg

/-! ## Sums -/

theorem toNat_ofCarry (hn : 0 < n) (carry : Bool) : (ofCarry n carry).toNat = carry.toNat := by
  have hone : 1 < 2 ^ n := Nat.one_lt_two_pow (by omega)
  have hle := carry.toNat_le
  unfold ofCarry
  rw [BitVec.toNat_ofNat, Nat.mod_eq_of_lt (by omega)]

section Sum

variable {a b sum : BitVec n} {carry : Bool} (hsum : sum = a + b + ofCarry n carry)

include hsum

theorem ofInt_unsigned_sum : BitVec.ofInt n (a.toNat + b.toNat + carry.toNat) = sum := by
  rw [hsum, BitVec.ofInt_add, BitVec.ofInt_add, BitVec.ofInt_natCast, BitVec.ofInt_natCast,
    BitVec.ofInt_natCast, BitVec.ofNat_toNat, BitVec.ofNat_toNat, BitVec.setWidth_eq,
    BitVec.setWidth_eq]
  rfl

theorem ofInt_signed_sum : BitVec.ofInt n (a.toInt + b.toInt + carry.toNat) = sum := by
  rw [hsum, BitVec.ofInt_add, BitVec.ofInt_add, BitVec.ofInt_toInt, BitVec.ofInt_toInt,
    BitVec.ofInt_natCast]
  rfl

theorem ofInt_signed_difference : BitVec.ofInt n (sum.toInt - b.toInt - carry.toNat) = a := by
  have hback : sum.toInt - b.toInt - carry.toNat + b.toInt + carry.toNat = sum.toInt := by omega
  have hofInt := congrArg (BitVec.ofInt n) hback
  unfold ofCarry at hsum
  rwa [BitVec.ofInt_add, BitVec.ofInt_add, BitVec.ofInt_toInt, BitVec.ofInt_toInt,
    BitVec.ofInt_natCast, hsum, BitVec.add_left_inj, BitVec.add_left_inj, ← hsum] at hofInt

variable (hn : 0 < n)

include hn

theorem toNat_sum : sum.toNat = (a.toNat + b.toNat + carry.toNat) % 2 ^ n := by
  rw [hsum, BitVec.toNat_add, BitVec.toNat_add, toNat_ofCarry hn, Nat.mod_add_mod]

/-- What leaves the width of a sum is one at most. -/
theorem toNat_sum_add : sum.toNat + (BitVec.carry n a b carry).toNat * 2 ^ n
    = a.toNat + b.toNat + carry.toNat := by
  have ha := a.isLt
  have hb := b.isLt
  have hle := carry.toNat_le
  rw [toNat_sum hsum hn, BitVec.carry_width]
  by_cases hout : 2 ^ n ≤ a.toNat + b.toNat + carry.toNat
  · rw [decide_eq_true hout, Nat.mod_eq_sub_mod hout, Nat.mod_eq_of_lt (by omega), Bool.toNat_true]
    omega
  · rw [decide_eq_false hout, Nat.mod_eq_of_lt (by omega), Bool.toNat_false, Nat.zero_mul,
      Nat.add_zero]

theorem carry_sum :
    BitVec.carry n a b carry = true ↔ ¬ IsUnsigned n (a.toNat + b.toNat + carry.toNat) := by
  have hadd := toNat_sum_add hsum hn
  rw [isUnsigned_iff (ofInt_unsigned_sum hsum)]
  cases hout : BitVec.carry n a b carry <;> simp [hout] at hadd ⊢ <;> omega

/-- The bits that a sum and its operands differ in tell where there was a carry. -/
theorem getLsbD_four_sum (hwide : 4 < n) : (a ^^^ b ^^^ sum).getLsbD 4 = true
    ↔ 16 ≤ a.toNat % 16 + b.toNat % 16 + carry.toNat := by
  have hmod : sum.toNat % 32 = (a.toNat + b.toNat + carry.toNat) % 32 := by
    rw [toNat_sum hsum hn]
    exact Nat.mod_mod_of_dvd _ (Nat.pow_dvd_pow 2 hwide)
  have hle := carry.toNat_le
  have hbit (v : BitVec n) : v.getLsbD 4 = decide (v.toNat / 16 % 2 = 1) :=
    Nat.testBit_eq_decide_div_mod_eq
  rw [BitVec.getLsbD_xor, BitVec.getLsbD_xor, hbit, hbit, hbit]
  by_cases ha : a.toNat / 16 % 2 = 1 <;> by_cases hb : b.toNat / 16 % 2 = 1 <;>
    by_cases hs : sum.toNat / 16 % 2 = 1 <;> simp only [ha, hb, hs] <;> simp <;> omega

omit hn hsum in
/-- The sign of a number goes by its size. -/
theorem msb_bounds (value : BitVec n) : value.toNat < 2 ^ n
    ∧ (value.msb = true → 2 ^ n ≤ 2 * value.toNat)
    ∧ (value.msb = false → 2 * value.toNat < 2 ^ n) :=
  ⟨value.isLt, BitVec.msb_eq_true_iff_two_mul_ge.mp, BitVec.msb_eq_false_iff_two_mul_lt.mp⟩

/-- Two operands of a sum that both differ from it in sign are those of a sum that is out of the
range of signed numbers. -/
theorem msb_sum : ((a ^^^ sum) &&& (b ^^^ sum)).msb = true
    ↔ sum.toInt ≠ a.toInt + b.toInt + carry.toNat := by
  have hadd := toNat_sum_add hsum hn
  have hle := carry.toNat_le
  obtain ⟨half, hhalf⟩ : ∃ half, 2 ^ n = 2 * half := Nat.pow_dvd_pow 2 hn
  have ha := msb_bounds a
  have hb := msb_bounds b
  have hs := msb_bounds sum
  rw [BitVec.msb_and, BitVec.msb_xor, BitVec.msb_xor]
  simp only [BitVec.toInt_eq_msb_cond, hhalf] at ha hb hs hadd ⊢
  cases hout : BitVec.carry n a b carry <;> cases ha' : a.msb <;> cases hb' : b.msb <;>
    cases hs' : sum.msb <;> simp [hout, ha', hb', hs'] at ha hb hs hadd ⊢ <;> omega

/-- The sign of an operand and the overflow tell which of the other operand and the sum is larger.
-/
theorem msb_xor_msb_sum (hcarry : carry = false) :
    (a.msb ^^ ((a ^^^ sum) &&& (b ^^^ sum)).msb) = decide (sum.toInt < b.toInt) := by
  have hadd := toNat_sum_add hsum hn
  obtain ⟨half, hhalf⟩ : ∃ half, 2 ^ n = 2 * half := Nat.pow_dvd_pow 2 hn
  have ha := msb_bounds a
  have hb := msb_bounds b
  have hs := msb_bounds sum
  rw [BitVec.msb_and, BitVec.msb_xor, BitVec.msb_xor]
  simp only [BitVec.toInt_eq_msb_cond, hhalf, hcarry] at ha hb hs hadd ⊢
  cases hout : BitVec.carry n a b false <;> cases ha' : a.msb <;> cases hb' : b.msb <;>
    cases hs' : sum.msb <;> simp [hout, ha', hb', hs'] at ha hb hs hadd ⊢ <;> omega

end Sum

/-! ## Differences -/

variable (a b : BitVec n) (carry : Bool)

/-- The first operand is the sum of the difference and the second. -/
theorem eq_difference_add {value : BitVec n} (h : value = a - b - ofCarry n carry) :
    a = value + b + ofCarry n carry := by
  rw [h, BitVec.add_assoc, BitVec.add_comm b, ← BitVec.add_assoc, BitVec.sub_add_cancel,
    BitVec.sub_add_cancel]

/-- A difference that is negative as an unsigned number has borrowed. -/
theorem isUnsigned_difference :
    IsUnsigned n (a.toNat - b.toNat - carry.toNat) ↔ ¬ a.toNat < b.toNat + carry.toNat := by
  have hbound : (a.toNat : Int) - b.toNat - carry.toNat ≤ a.toNat := by omega
  rw [isUnsigned_iff_nonneg hbound]
  omega

end Arithmetic

/-! ## All flags -/

/-- What the flags tell of a result: how it looks, and whether it would have been the same without
a bound, as an unsigned number, as a signed number, and in its lowest four bits. -/
structure Flags.Report {n : Nat} (flags : Word) (value : BitVec n) (unsigned signed nibble : Int) :
    Prop where
  carry : Flags.get flags .carry = true ↔ ¬ Arithmetic.IsUnsigned n unsigned
  overflow : Flags.get flags .overflow = true ↔ ¬ Arithmetic.IsSigned n signed
  auxiliary : Flags.get flags .auxiliary = true ↔ ¬ Arithmetic.IsUnsigned 4 nibble
  zero : Flags.get flags .zero = true ↔ value = 0
  sign : Flags.get flags .sign = true ↔ value.getLsbD (n - 1) = true
  /-- An even number of ones in the lowest byte. -/
  parity : Flags.get flags .parity = true ↔ (List.range 8).countP value.getLsbD % 2 = 0

namespace Arithmetic

variable {n : Nat} (a b : BitVec n) (carry : Bool) (flags : Word)

/-- The flags that go by the result alone. -/
theorem get_describe (value : BitVec n) :
    (Flags.get (Flags.describe flags value) .zero = true ↔ value = 0)
      ∧ (Flags.get (Flags.describe flags value) .sign = true ↔ value.getLsbD (n - 1) = true)
      ∧ (Flags.get (Flags.describe flags value) .parity = true
        ↔ (List.range 8).countP value.getLsbD % 2 = 0) := by
  have hlow : (List.range 8).countP (value.setWidth 8).getLsbD
      = (List.range 8).countP value.getLsbD := by
    refine List.countP_congr fun i hi => ?_
    rw [BitVec.getLsbD_setWidth, decide_eq_true (List.mem_range.mp hi), Bool.true_and]
  simp only [Flags.describe, Flags.get_set, reduceCtorEq, if_false, if_true, evenOnes, hlow,
    beq_iff_eq, BitVec.msb_eq_getLsbD_last, and_self]

theorem report_add (hn : 4 < n) :
    Flags.Report (add a b carry flags).flags (a + b + ofCarry n carry)
      (a.toNat + b.toNat + carry.toNat) (a.toInt + b.toInt + carry.toNat)
      (a.toNat % 16 + b.toNat % 16 + carry.toNat) := by
  have hpositive : 0 < n := Nat.zero_lt_of_lt hn
  obtain ⟨hzero, hsign, hparity⟩ := get_describe
    (Flags.set (Flags.set (Flags.set flags .carry (BitVec.carry n a b carry)) .overflow _)
      .auxiliary _) (a + b + ofCarry n carry)
  refine ⟨?_, ?_, ?_, hzero, hsign, hparity⟩
  all_goals simp only [add, Flags.describe, Flags.get_set, reduceCtorEq, if_false, if_true]
  · exact carry_sum rfl hpositive
  · rw [isSigned_iff (ofInt_signed_sum rfl)]
    exact msb_sum rfl hpositive
  · rw [isUnsigned_four, getLsbD_four_sum rfl hpositive hn]
    omega

theorem report_subtract (hn : 4 < n) :
    Flags.Report (subtract a b carry flags).flags (a - b - ofCarry n carry)
      (a.toNat - b.toNat - carry.toNat) (a.toInt - b.toInt - carry.toNat)
      (a.toNat % 16 - b.toNat % 16 - carry.toNat) := by
  have hpositive : 0 < n := Nat.zero_lt_of_lt hn
  have hsum := eq_difference_add a b carry rfl
  obtain ⟨hzero, hsign, hparity⟩ := get_describe
    (Flags.set (Flags.set (Flags.set flags .carry (decide (a.toNat < b.toNat + carry.toNat)))
      .overflow _) .auxiliary _) (a - b - ofCarry n carry)
  refine ⟨?_, ?_, ?_, hzero, hsign, hparity⟩
  all_goals simp only [subtract, Flags.describe, Flags.get_set, reduceCtorEq, if_false, if_true]
  · rw [isUnsigned_difference, not_not, decide_eq_true_iff]
  · have hover := msb_sum hsum hpositive
    rw [isSigned_iff (ofInt_signed_difference hsum), BitVec.and_comm, BitVec.xor_comm a,
      BitVec.xor_comm a, hover]
    omega
  · have hmod := toNat_sum hsum hpositive
    have hnibble := getLsbD_four_sum hsum hpositive hn
    have hlow : a.toNat % 16
        = ((a - b - ofCarry n carry).toNat + b.toNat + carry.toNat) % 16 := by
      rw [hmod]
      exact Nat.mod_mod_of_dvd _ (Nat.pow_dvd_pow 2 (Nat.le_of_lt hn))
    have hle := carry.toNat_le
    rw [isUnsigned_four, BitVec.xor_assoc, BitVec.xor_comm a, BitVec.xor_comm b, hnibble]
    omega

/-- Sign and overflow of a difference together tell which of two signed numbers is the lesser. -/
theorem sign_bne_overflow_subtract (hn : 0 < n) :
    (Flags.get (subtract a b false flags).flags .sign
      != Flags.get (subtract a b false flags).flags .overflow) = decide (a.toInt < b.toInt) := by
  simp only [subtract, Flags.describe, Flags.get_set, reduceCtorEq, if_false, if_true]
  rw [BitVec.and_comm, BitVec.xor_comm a, BitVec.xor_comm a]
  exact msb_xor_msb_sum (eq_difference_add a b false rfl) hn rfl

end Arithmetic

end CmStream
