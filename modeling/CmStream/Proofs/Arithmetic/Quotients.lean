import CmStream.Machine.Multiplying
import CmStream.Machine.Product
import CmStream.Proofs.Arithmetic.Sums
import Mathlib.Tactic.Linarith

/-!
# Exact products and quotients

The halves of a product, put together, are the product without a bound. A quotient is missing just
if it is not a number of the width; a remainder, being smaller than the divisor, always is one.
-/

namespace CmStream

open Arithmetic

namespace Arithmetic

variable {n : Nat} {signed : Bool} {x : Int}

/-- Cut down to the width, a number is the same just if it is one of the width. -/
theorem isNumber_iff {value : BitVec n} (h : BitVec.ofInt n x = value) :
    IsNumber signed n x ↔ number signed value = x := by
  cases signed with
  | false => exact isUnsigned_iff h
  | true => exact isSigned_iff h

theorem number_eq_zero_iff {value : BitVec n} : number signed value = 0 ↔ value = 0 := by
  cases signed with
  | false =>
    show (value.toNat : Int) = 0 ↔ value = 0#n
    rw [Int.natCast_eq_zero, ← BitVec.toNat_inj, BitVec.toNat_ofNat, Nat.zero_mod]
  | true =>
    show value.toInt = 0 ↔ value = 0#n
    rw [← BitVec.toInt_inj, BitVec.toInt_zero]

/-- Truncation toward zero leaves a remainder of the sign of the dividend. -/
theorem divides_tdiv {divisor : Int} (dividend : Int) (h : divisor ≠ 0) :
    Divides dividend divisor (dividend.tdiv divisor) (dividend.tmod divisor) := by
  have hsign := Int.sign_tmod dividend divisor
  refine ⟨(Int.tdiv_mul_add_tmod dividend divisor).symm, ?_, ?_⟩
  · rw [Int.natAbs_tmod]
    exact Nat.mod_lt _ (Int.natAbs_pos.mpr h)
  · split at hsign
    case isTrue => exact .inl (Int.sign_eq_zero_iff_zero.mp hsign)
    case isFalse => exact .inr hsign

/-- What remains is a number of the width of the divisor. -/
theorem isNumber_tmod {k : Nat} (whole : BitVec k) {divisor : BitVec n} (h : divisor ≠ 0) :
    IsNumber signed n ((number signed whole).tmod (number signed divisor)) := by
  have hnonzero : number signed divisor ≠ 0 := fun hzero => h (number_eq_zero_iff.mp hzero)
  have hsmall := (divides_tdiv (number signed whole) hnonzero).small
  cases signed with
  | false =>
    have hnonneg : 0 ≤ (number false whole).tmod (number false divisor) :=
      Int.tmod_nonneg _ (Int.natCast_nonneg _)
    have hdivisor : number false divisor = divisor.toNat := rfl
    have hbound : (number false whole).tmod (number false divisor) ≤ divisor.toNat := by omega
    exact (isUnsigned_iff_nonneg hbound).mpr hnonneg
  | true =>
    have hpositive : 0 < n := by
      rcases Nat.eq_zero_or_pos n with rfl | hn
      · exact absurd (BitVec.eq_nil divisor) h
      · exact hn
    have hge : -2 ^ (n - 1) ≤ number true divisor := BitVec.le_toInt divisor
    have hlt : number true divisor < 2 ^ (n - 1) := BitVec.toInt_lt
    exact ⟨_, BitVec.toInt_ofInt_eq_self hpositive (by omega) (by omega)⟩

end Arithmetic

/-! ## Products -/

namespace Product

variable {n : Nat} (a b : BitVec n)

/-- Two factors of the width, unsigned or in two's complement. -/
def of (signed : Bool) : Halves n := if signed then Product.signed a b else unsigned a b

theorem toNat_halves : (unsigned a b).upper.toNat * 2 ^ n + (unsigned a b).lower.toNat
    = a.toNat * b.toNat := by
  have hproduct : a.toNat * b.toNat < 2 ^ n * 2 ^ n := Nat.mul_lt_mul'' a.isLt b.isLt
  have hupper : a.toNat * b.toNat / 2 ^ n < 2 ^ n := Nat.div_lt_of_lt_mul hproduct
  unfold unsigned
  rw [BitVec.toNat_ofNat, BitVec.toNat_ofNat, Nat.shiftRight_eq_div_pow, Nat.mod_eq_of_lt hupper]
  exact Nat.div_add_mod' _ _

/-- The upper half of a signed product is a signed number of the width. -/
theorem shiftRight_product_bounds (hn : 0 < n) :
    -2 ^ (n - 1) ≤ (a.toInt * b.toInt) >>> n ∧ (a.toInt * b.toInt) >>> n < 2 ^ (n - 1) := by
  obtain ⟨k, rfl⟩ := Nat.exists_eq_add_one_of_ne_zero (Nat.ne_of_gt hn)
  have hle := BitVec.toInt_mul_toInt_le (x := a) (y := b)
  have hge := BitVec.le_toInt_mul_toInt (x := a) (y := b)
  have hsquare : (2 : Int) ^ ((k + 1) * 2 - 2) = 2 ^ k * 2 ^ k := by
    rw [← Int.pow_add]
    congr 1
    omega
  have hhalf : (0 : Int) < 2 ^ k := Int.pow_pos (by decide)
  have hsquarePositive := Int.mul_pos hhalf hhalf
  rw [hsquare] at hle hge
  have hwhole : ((2 ^ (k + 1) : Nat) : Int) = 2 ^ k * 2 := by
    push_cast
    exact Int.pow_succ 2 k
  rw [Int.shiftRight_eq_div_pow, Nat.add_sub_cancel, hwhole]
  refine ⟨Int.le_ediv_of_mul_le (by linarith) ?_, Int.ediv_lt_of_lt_mul (by linarith) ?_⟩
  · calc -2 ^ k * (2 ^ k * 2) = -(2 ^ k * 2 ^ k) - 2 ^ k * 2 ^ k := by ring
      _ ≤ a.toInt * b.toInt := by linarith
  · calc a.toInt * b.toInt < 2 ^ k * 2 ^ k + 2 ^ k * 2 ^ k := by linarith
      _ = 2 ^ k * (2 ^ k * 2) := by ring

/-- Both halves of a product make up the product. -/
theorem number_halves (signed : Bool) (hn : 0 < n) :
    number signed ((of a b signed).upper ++ (of a b signed).lower)
      = number signed a * number signed b := by
  cases signed with
  | false =>
    show (((unsigned a b).upper ++ (unsigned a b).lower).toNat : Int) = a.toNat * b.toNat
    rw [BitVec.toNat_append, ← Nat.shiftLeft_add_eq_or_of_lt (BitVec.isLt _), Nat.shiftLeft_eq,
      toNat_halves, Int.natCast_mul]
  | true =>
    show ((Product.signed a b).upper ++ (Product.signed a b).lower).toInt = a.toInt * b.toInt
    obtain ⟨hge, hlt⟩ := shiftRight_product_bounds a b hn
    unfold Product.signed
    rw [BitVec.toInt_append, if_neg (by simp; omega), BitVec.toInt_ofInt_eq_self hn hge hlt,
      BitVec.toNat_ofInt, Int.toNat_of_nonneg (Int.emod_nonneg _ (by simp)),
      Int.shiftRight_eq_div_pow]
    push_cast
    exact Int.mul_ediv_add_emod _ _

/-- A product exceeds its lower half if it is not a number of the width. -/
theorem exceeds_iff (signed : Bool) : (of a b signed).exceeds = true
    ↔ ¬ IsNumber signed n (number signed a * number signed b) := by
  cases signed with
  | false =>
    have hlower : BitVec.ofInt n (a.toNat * b.toNat) = (unsigned a b).lower := by
      rw [← Int.natCast_mul]
      rfl
    have hsum := toNat_halves a b
    show ((unsigned a b).upper != 0) = true ↔ ¬ IsNumber false n (a.toNat * b.toNat)
    rw [isNumber_iff hlower, bne_iff_ne, ne_eq, not_iff_not, BitVec.toNat_eq]
    show (unsigned a b).upper.toNat = 0
      ↔ ((unsigned a b).lower.toNat : Int) = a.toNat * b.toNat
    rw [← Int.natCast_mul, Int.natCast_inj, ← hsum, Nat.right_eq_add,
      Nat.mul_eq_zero]
    simp
  | true =>
    show decide ((BitVec.ofInt n (a.toInt * b.toInt)).toInt ≠ a.toInt * b.toInt) = true
      ↔ ¬ IsNumber true n (a.toInt * b.toInt)
    rw [isNumber_iff rfl, decide_eq_true_iff]
    rfl

end Product

/-! ## Quotients -/

namespace Quotient

variable {n : Nat} {upper lower divisor : BitVec n}

/-- A dividend and a divisor, unsigned or in two's complement. -/
def of? (signed : Bool) (upper lower divisor : BitVec n) : Option (Result n) :=
  if signed then signed? upper lower divisor else unsigned? upper lower divisor

theorem of?_eq (signed : Bool) (upper lower divisor : BitVec n) :
    of? signed upper lower divisor =
      let dividend := number signed (upper ++ lower)
      let quotient := dividend.tdiv (number signed divisor)
      if divisor = 0 ∨ number signed (BitVec.ofInt n quotient) ≠ quotient then none
      else some ⟨BitVec.ofInt n quotient,
        BitVec.ofInt n (dividend.tmod (number signed divisor))⟩ := by
  cases signed with
  | false =>
    show unsigned? upper lower divisor = _
    unfold unsigned? number
    dsimp only
    simp only [← Int.ofNat_tdiv, ← Int.ofNat_tmod, BitVec.ofInt_natCast, ne_eq, Int.natCast_inj]
  | true => rfl

/-- There is no quotient just if the divisor is zero or the quotient is no number of the width. -/
theorem of?_eq_none_iff {signed : Bool} : of? signed upper lower divisor = none
    ↔ ¬ QuotientFits signed n (number signed (upper ++ lower)) (number signed divisor) := by
  rw [of?_eq, QuotientFits, ne_eq, number_eq_zero_iff, isNumber_iff rfl, not_and_or, not_not]
  simp only [ite_eq_left_iff, reduceCtorEq, imp_false, not_not, ne_eq]

theorem divides_of_of?_eq_some {signed : Bool} {result : Result n}
    (h : of? signed upper lower divisor = some result) :
    Divides (number signed (upper ++ lower)) (number signed divisor)
      (number signed result.quotient) (number signed result.remainder) := by
  rw [of?_eq] at h
  dsimp only at h
  split at h
  case isTrue => cases h
  case isFalse hgood =>
    obtain ⟨hnonzero, hfits⟩ := not_or.mp hgood
    cases h
    rw [not_not.mp hfits, (isNumber_iff rfl).mp (isNumber_tmod (upper ++ lower) hnonzero)]
    exact divides_tdiv _ fun hzero => hnonzero (number_eq_zero_iff.mp hzero)

end Quotient

end CmStream
