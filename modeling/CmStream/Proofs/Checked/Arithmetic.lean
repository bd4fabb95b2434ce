import CmStream.Checked.Arithmetic

/-!
# Arithmetic is defined

An operand of at most sixteen bits is less than 65536. So no sum, product or shift leaves the 32
bits of the numbers that it is computed with, a divisor that has been seen not to be zero divides,
and every result is the one that arithmetic at the width of the operands has.
-/

namespace CmStream

namespace Checked

variable {n : Nat}

theorem toNat_lt_of_le (hn : n ≤ 16) (a : BitVec n) : a.toNat < 65536 :=
  Nat.lt_of_lt_of_le a.isLt (Nat.pow_le_pow_right (by decide) hn)

/-! ## Sums and differences -/

theorem toNat_le_one (carry : Bool) : carry.toNat ≤ 1 := by
  cases carry <;> decide

/-- Two operands and a carry add up to less than 32 bits hold. -/
theorem sum_eq_some (hn : n ≤ 16) (a b : BitVec n) (carry : Bool) (flags : Word) :
    sum a b carry flags = some (Arithmetic.add a b carry flags) := by
  have ha := toNat_lt_of_le hn a
  have hb := toNat_lt_of_le hn b
  have hcarry := toNat_le_one carry
  have hoperands : a.toNat + b.toNat < 1 <<< 32 := by omega
  have hfull : a.toNat + b.toNat + carry.toNat < 1 <<< 32 := by omega
  have hvalue : BitVec.ofNat n (a.toNat + b.toNat + carry.toNat)
      = a + b + Arithmetic.ofCarry n carry := by
    apply BitVec.eq_of_toNat_eq
    simp [Arithmetic.ofCarry]
  have hover : decide (1 <<< n ≤ a.toNat + b.toNat + carry.toNat) = BitVec.carry n a b carry := by
    simp [BitVec.carry, Nat.one_shiftLeft, Nat.mod_eq_of_lt a.isLt, Nat.mod_eq_of_lt b.isLt]
  simp only [sum, Number.add_eq_some hoperands, Number.add_eq_some hfull, Option.bind_eq_bind,
    Option.bind_some, hvalue, hover]
  rfl

/-- What is taken away has 32 bits too, and the difference itself wraps. -/
theorem difference_eq_some (hn : n ≤ 16) (a b : BitVec n) (borrow : Bool) (flags : Word) :
    difference a b borrow flags = some (Arithmetic.subtract a b borrow flags) := by
  have hb := toNat_lt_of_le hn b
  have hborrow := toNat_le_one borrow
  have htaken : b.toNat + borrow.toNat < 1 <<< 32 := by omega
  simp only [difference, Number.add_eq_some htaken, Option.bind_eq_bind, Option.bind_some]
  rfl

theorem increment_eq_some (hn : n ≤ 16) (a : BitVec n) (flags : Word) :
    increment a flags = some (Arithmetic.increment a flags) := by
  unfold increment
  rw [sum_eq_some hn]
  rfl

theorem decrement_eq_some (hn : n ≤ 16) (a : BitVec n) (flags : Word) :
    decrement a flags = some (Arithmetic.decrement a flags) := by
  unfold decrement
  rw [difference_eq_some hn]
  rfl

theorem compute_eq_some (hn : n ≤ 16) (operation : Arithmetic.Operation) (a b : BitVec n)
    (flags : Word) : compute operation a b flags = some (operation.compute a b flags) := by
  cases operation with
  | add | adc => exact sum_eq_some hn a b _ flags
  | sbb | sub | cmp => exact difference_eq_some hn a b _ flags
  | or | and | xor => rfl

/-! ## Shifts -/

namespace Shift

open CmStream.Shift (State)

theorem shiftLeft_toNat (hn : n ≤ 16) (value : BitVec n) :
    Number.shiftLeft 32 value.toNat 1 = some (value.toNat <<< 1) := by
  have hlt := toNat_lt_of_le hn value
  have hfits : value.toNat <<< 1 < 1 <<< 32 := by
    rw [Nat.shiftLeft_eq]
    omega
  exact Number.shiftLeft_eq_some (by decide) hfits

/-- Shifted to the left, an operand moves into the upper half of 32 bits and no further. -/
theorem left_eq_some (hn : n ≤ 16) (value : BitVec n) (incoming : Bool) :
    left value incoming = some (CmStream.Shift.left value incoming) := by
  have hvalue : BitVec.ofNat n (value.toNat <<< 1 ||| incoming.toNat)
      = CmStream.Shift.left value incoming := by
    apply BitVec.eq_of_toNat_eq
    simp [CmStream.Shift.left, Arithmetic.ofCarry]
  simp only [left, shiftLeft_toNat hn, Option.bind_eq_bind, Option.bind_some, hvalue]
  rfl

theorem right_eq_some (value : BitVec n) (incoming : Bool) :
    right value incoming = some (CmStream.Shift.right value incoming) := by
  have hvalue : BitVec.ofNat n (value.toNat >>> 1) = value >>> 1 := by
    rw [← BitVec.toNat_ushiftRight, BitVec.ofNat_toNat, BitVec.setWidth_eq]
  simp only [right, Number.shiftRight_eq_some value.toNat (by decide : 1 < 32),
    Option.bind_eq_bind, Option.bind_some, hvalue]
  rfl

theorem leftState_eq_some (hn : n ≤ 16) (value : BitVec n) (incoming : Bool) :
    leftState value incoming = some (CmStream.Shift.leftState value incoming) := by
  unfold leftState
  rw [left_eq_some hn]
  rfl

theorem rightState_eq_some (hn : n ≤ 16) (value : BitVec n) (incoming : Bool) :
    rightState value incoming = some (CmStream.Shift.rightState value incoming) := by
  have hagain : ∀ shifted : BitVec n, BitVec.ofNat n (shifted.toNat <<< 1) = shifted <<< 1 := by
    intro shifted
    apply BitVec.eq_of_toNat_eq
    rw [BitVec.toNat_ofNat, BitVec.toNat_shiftLeft]
  simp only [rightState, right_eq_some, shiftLeft_toNat hn, Option.bind_eq_bind, Option.bind_some,
    hagain]
  rfl

theorem place_eq_some (hn : n ≤ 16) (shift : CmStream.Shift) (s : State n) :
    place shift s = some (shift.place s) := by
  cases shift with
  | rol | rcl | shl => exact leftState_eq_some hn s.value _
  | ror | rcr => exact rightState_eq_some hn s.value _
  | shr | sar =>
    simp only [place, right_eq_some, Option.bind_eq_bind, Option.bind_some]
    rfl

/-- However many places it is, every one of them begins with an operand that has been cut down. -/
theorem repeated_eq_some (hn : n ≤ 16) (shift : CmStream.Shift) (s : State n) (count : Nat) :
    repeated shift s count = some (Nat.repeat shift.place count s) := by
  induction count with
  | zero => rfl
  | succ count ih =>
    unfold repeated
    rw [ih]
    exact place_eq_some hn shift _

theorem compute_eq_some (hn : n ≤ 16) (shift : CmStream.Shift) (value : BitVec n) (count : Byte)
    (flags : Word) : compute shift value count flags = some (shift.compute value count flags) := by
  unfold compute CmStream.Shift.compute
  by_cases hplaces : CmStream.Shift.places count = 0
  · simp only [hplaces, if_true]
    rfl
  · simp only [hplaces, if_false, repeated_eq_some hn, Option.bind_eq_bind, Option.bind_some]
    rfl

end Shift

/-! ## Bytes of a word -/

theorem upperByte_eq_some (w : Word) : upperByte w = some (Word.high w) := by
  have hvalue : BitVec.ofNat 8 (w.toNat >>> 8) = Word.high w := by
    apply BitVec.eq_of_toNat_eq
    rw [BitVec.toNat_ofNat, Word.high, BitVec.extractLsb'_toNat]
  simp only [upperByte, Number.shiftRight_eq_some w.toNat (by decide : 8 < 16),
    Option.bind_eq_bind, Option.bind_some, hvalue]
  rfl

theorem joinBytes_eq_some (first second : Byte) :
    joinBytes first second = some (Word.ofBytes first second) := by
  have hfits : second.toNat <<< 8 < 1 <<< 16 := by
    have hsecond := second.isLt
    rw [Nat.shiftLeft_eq]
    omega
  have hvalue : BitVec.ofNat 16 (second.toNat <<< 8 ||| first.toNat)
      = Word.ofBytes first second := by
    rw [← BitVec.toNat_append, BitVec.ofNat_toNat, BitVec.setWidth_eq]
    rfl
  simp only [joinBytes, Number.shiftLeft_eq_some (by decide : 8 < 16) hfits,
    Option.bind_eq_bind, Option.bind_some, hvalue]
  rfl

/-! ## Products -/

/-- The product of two operands has twice their bits at most. -/
theorem product_eq_some (hpositive : 0 < n) (a b : BitVec n) :
    product a b = some (Product.unsigned a b) := by
  have hfits : a.toNat * b.toNat < 1 <<< (2 * n) := by
    rw [Nat.one_shiftLeft, Nat.two_mul, Nat.pow_add]
    exact Nat.mul_lt_mul'' a.isLt b.isLt
  have hshift : n < 2 * n := by omega
  simp only [product, Number.multiply_eq_some hfits, Number.shiftRight_eq_some _ hshift,
    Option.bind_eq_bind, Option.bind_some]
  rfl

/-- Half of the numbers of the given bits lie on either side of zero. -/
theorem two_mul_natAbs_toInt_le {bits : Nat} (hn : n ≤ bits) (a : BitVec n) :
    2 * a.toInt.natAbs ≤ 1 <<< bits := by
  have hlt := a.isLt
  have hpower := Nat.pow_le_pow_right (n := 2) (by decide) hn
  rw [Nat.one_shiftLeft, BitVec.toInt_eq_toNat_cond]
  split <;> omega

/-- A number that is small enough has the bits. -/
theorem fit_eq_some {bits : Nat} {a : Int} (h : a.natAbs < 1 <<< (bits - 1)) :
    Signed.fit bits a = some a := by
  unfold Signed.fit
  generalize 1 <<< (bits - 1) = bound at h ⊢
  exact if_pos ⟨by omega, by omega⟩

/-- The product of two signed operands fits into 32 bits. -/
theorem signedProduct_eq_some (hn : n ≤ 16) (a b : BitVec n) :
    signedProduct a b = some (Product.signed a b) := by
  have hsize : (a.toInt * b.toInt).natAbs ≤ 32768 * 32768 := by
    have ha := two_mul_natAbs_toInt_le hn a
    have hb := two_mul_natAbs_toInt_le hn b
    rw [Int.natAbs_mul]
    exact Nat.mul_le_mul (by omega) (by omega)
  have hproduct : Signed.multiply 32 a.toInt b.toInt = some (a.toInt * b.toInt) :=
    fit_eq_some (by omega)
  have hshift : Signed.shiftRight 32 (a.toInt * b.toInt) n = some ((a.toInt * b.toInt) >>> n) :=
    if_pos (by omega)
  simp only [signedProduct, hproduct, hshift, Option.bind_eq_bind, Option.bind_some]
  rfl

/-! ## Quotients -/

theorem joined_eq_some (hn : n ≤ 16) (upper lower : BitVec n) :
    joined upper lower = some (upper ++ lower).toNat := by
  have hfits : upper.toNat <<< n < 1 <<< 32 := by
    have hpower := Nat.pow_le_pow_right (n := 2) (by decide) hn
    have hproduct := Nat.mul_lt_mul_of_lt_of_le (toNat_lt_of_le hn upper) hpower (by decide)
    rw [Nat.shiftLeft_eq]
    omega
  rw [joined, Number.shiftLeft_eq_some (by omega) hfits, BitVec.toNat_append]
  rfl

theorem toNat_ne_zero {a : BitVec n} (h : a ≠ 0) : a.toNat ≠ 0 :=
  fun hzero => h (BitVec.eq_of_toNat_eq (hzero.trans BitVec.toNat_zero.symm))

/-- A divisor of zero has been seen before anything is divided by it. -/
theorem quotient?_eq_some (hn : n ≤ 16) (upper lower divisor : BitVec n) :
    quotient? upper lower divisor = some (Quotient.unsigned? upper lower divisor) := by
  unfold quotient? Quotient.unsigned?
  by_cases hzero : divisor = 0
  · rw [if_pos hzero, if_pos (.inl hzero)]
    rfl
  · have hdivisor := toNat_ne_zero hzero
    simp only [if_neg hzero, joined_eq_some hn, Number.divide_eq_some _ hdivisor,
      Number.remainder_eq_some _ hdivisor, Option.bind_eq_bind, Option.bind_some]
    have hlarge : (BitVec.ofNat n ((upper ++ lower).toNat / divisor.toNat)).toNat
        ≠ (upper ++ lower).toNat / divisor.toNat
          ↔ 1 <<< n ≤ (upper ++ lower).toNat / divisor.toNat := by
      rw [Nat.one_shiftLeft, BitVec.toNat_ofNat, ne_eq, Nat.mod_eq_iff_lt, Nat.not_lt]
      exact Nat.ne_of_gt (Nat.two_pow_pos n)
    simp only [hzero, hlarge, false_or]
    split
    · rfl
    · rfl

/-- The dividend has 64 bits, so that even the least one has a quotient by minus one. -/
theorem signedQuotient?_eq_some (hn : n ≤ 16) (upper lower divisor : BitVec n) :
    signedQuotient? upper lower divisor = some (Quotient.signed? upper lower divisor) := by
  unfold signedQuotient? Quotient.signed?
  by_cases hzero : divisor = 0
  · rw [if_pos hzero, if_pos (.inl hzero)]
    rfl
  · have hdividend : BitVec.ofNat (n + n) (upper ++ lower).toNat = upper ++ lower := by
      rw [BitVec.ofNat_toNat, BitVec.setWidth_eq]
    have hsize := two_mul_natAbs_toInt_le (Nat.add_le_add hn hn) (upper ++ lower)
    have hquotient : ((upper ++ lower).toInt.tdiv divisor.toInt).natAbs
        ≤ (upper ++ lower).toInt.natAbs := by
      rw [Int.natAbs_tdiv]
      exact Nat.div_le_self _ _
    have hdivisor : divisor.toInt ≠ 0 := fun h =>
      hzero (BitVec.toInt_inj.mp (h.trans BitVec.toInt_zero.symm))
    have hdefined : Signed.divide 64 (upper ++ lower).toInt divisor.toInt
        = some ((upper ++ lower).toInt.tdiv divisor.toInt) := by
      unfold Signed.divide
      rw [if_neg hdivisor]
      exact fit_eq_some (by omega)
    simp only [hzero, if_false, false_or, joined_eq_some hn, hdividend, Signed.remainder, hdefined,
      Option.bind_eq_bind, Option.bind_some, Option.map_some]
    split
    · rfl
    · rfl

theorem split?_eq_some (base al : Byte) (flags : Word) :
    split? base al flags = some (Decimal.split? base al flags) := by
  unfold split? Decimal.split?
  by_cases hzero : base = 0
  · rw [if_pos hzero, if_pos hzero]
    rfl
  · have hbase := toNat_ne_zero hzero
    have hquotient : BitVec.ofNat 8 (al.toNat / base.toNat) = al / base := by
      rw [← BitVec.toNat_udiv, BitVec.ofNat_toNat, BitVec.setWidth_eq]
    have hremainder : BitVec.ofNat 8 (al.toNat % base.toNat) = al % base := by
      rw [← BitVec.toNat_umod, BitVec.ofNat_toNat, BitVec.setWidth_eq]
    simp only [if_neg hzero, Number.divide_eq_some _ hbase, Number.remainder_eq_some _ hbase,
      Option.bind_eq_bind, Option.bind_some, hquotient, hremainder, joinBytes_eq_some]
    rfl

end Checked

end CmStream
