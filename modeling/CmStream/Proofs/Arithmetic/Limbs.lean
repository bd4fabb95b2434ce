import CmStream.Machine.Carrying
import CmStream.Proofs.Arithmetic.Sums
import Mathlib.Tactic.LinearCombination

/-!
# Sums of many places

A sum of two numbers is put together place by place: in each place the digits and the carry from
below come to a digit and to what it carries. This goes for limbs in the base of their width and for
decimal digits alike. Of numbers in two's complement, only the highest limb has a sign, and it alone
tells whether the sum overflows.
-/

namespace CmStream

open Arithmetic

/-! ## What limbs stand for -/

namespace Limbs

variable {n : Nat} {limb : BitVec n} {limbs others : List (BitVec n)}

theorem unsigned_cons :
    unsigned (limb :: limbs) = limb.toNat + 2 ^ n * unsigned limbs := Nat.ofDigits_cons

theorem pow_length_cons :
    2 ^ (n * (limb :: limbs).length) = 2 ^ n * 2 ^ (n * limbs.length) := by
  rw [List.length_cons, Nat.mul_succ, Nat.pow_add, Nat.mul_comm]

theorem unsigned_lt (limbs : List (BitVec n)) : unsigned limbs < 2 ^ (n * limbs.length) := by
  induction limbs with
  | nil => exact Nat.one_pos
  | cons limb limbs ih =>
    rw [unsigned_cons, pow_length_cons]
    calc limb.toNat + 2 ^ n * unsigned limbs
        < 2 ^ n * (unsigned limbs + 1) := by
          rw [Nat.mul_add_one]
          have hlimb := limb.isLt
          omega
      _ ≤ 2 ^ n * 2 ^ (n * limbs.length) := Nat.mul_le_mul_left _ ih

/-- As many limbs that stand for the same number are the same limbs. -/
theorem eq_of_unsigned_eq (hn : 0 < n) (hlength : limbs.length = others.length)
    (h : unsigned limbs = unsigned others) : limbs = others := by
  have hsmall : ∀ limbs : List (BitVec n), ∀ digit ∈ limbs.map BitVec.toNat, digit < 2 ^ n := by
    intro limbs digit hdigit
    obtain ⟨limb, -, rfl⟩ := List.mem_map.mp hdigit
    exact limb.isLt
  have hdigits := Nat.ofDigits_inj_of_len_eq (Nat.one_lt_two_pow (Nat.ne_of_gt hn))
    (by rw [List.length_map, List.length_map, hlength]) (hsmall limbs) (hsmall others) h
  exact (List.map_inj_right fun _ _ => BitVec.eq_of_toNat_eq).mp hdigits

theorem toNat_ofNat_unsigned {k : Nat} (hlength : limbs.length = k) :
    (BitVec.ofNat (n * k) (unsigned limbs)).toNat = unsigned limbs := by
  subst hlength
  exact Nat.mod_eq_of_lt (unsigned_lt limbs)

theorem toInt_ofNat_unsigned {k : Nat} (hlength : limbs.length = k) :
    (BitVec.ofNat (n * k) (unsigned limbs)).toInt = signed limbs := by
  subst hlength
  rfl

/-- A number in two's complement is negative if it is in the upper half of the range. -/
theorem signed_eq (limbs : List (BitVec n)) : signed limbs
    = if 2 * unsigned limbs < 2 ^ (n * limbs.length) then (unsigned limbs : Int)
      else unsigned limbs - (2 ^ (n * limbs.length) : Nat) := by
  unfold signed
  rw [BitVec.toInt_eq_toNat_cond, toNat_ofNat_unsigned rfl]

theorem signed_singleton (limb : BitVec n) : signed [limb] = limb.toInt := by
  have hone : unsigned [limb] = limb.toNat := by
    rw [unsigned_cons]
    exact Nat.add_zero _
  rw [signed_eq, BitVec.toInt_eq_toNat_cond, hone, List.length_singleton, Nat.mul_one]

/-- Below the highest limb, limbs have no sign. -/
theorem signed_cons (hn : 0 < n) (hmore : limbs ≠ []) :
    signed (limb :: limbs) = limb.toNat + (2 ^ n : Nat) * signed limbs := by
  obtain ⟨half, hhalf⟩ : ∃ half, 2 ^ (n * limbs.length) = 2 * half :=
    Nat.pow_dvd_pow 2 (Nat.mul_pos hn (List.length_pos_iff.mpr hmore))
  have hlimb := limb.isLt
  rw [signed_eq, signed_eq, pow_length_cons, unsigned_cons, hhalf, Nat.mul_left_comm]
  generalize 2 ^ n = base at *
  generalize unsigned limbs = upper
  by_cases hlower : upper < half
  · have hbelow : base * (upper + 1) ≤ base * half := Nat.mul_le_mul_left base hlower
    rw [Nat.mul_add_one] at hbelow
    rw [if_pos (by omega), if_pos (by omega)]
    push_cast
    ring
  · have habove : base * half ≤ base * upper := Nat.mul_le_mul_left base (Nat.le_of_not_lt hlower)
    rw [if_neg (by omega), if_neg (by omega)]
    push_cast
    ring

end Limbs

/-! ## Carrying out of a place -/

namespace Arithmetic

section Carries

variable {a b sum base : Nat} {carry out : Bool}
  (h : a + b + carry.toNat = sum + base * out.toNat)

include h

theorem sum_eq_mod (hsum : sum < base) : sum = (a + b + carry.toNat) % base := by
  rw [h, Nat.add_mul_mod_self_left, Nat.mod_eq_of_lt hsum]

theorem out_iff_le (hsum : sum < base) : out = true ↔ base ≤ a + b + carry.toNat := by
  rw [h]
  cases out with
  | true => exact iff_of_true rfl (by rw [Bool.toNat_true]; omega)
  | false => exact iff_of_false Bool.false_ne_true (by rw [Bool.toNat_false]; omega)

/-- Of a difference, the first operand is the sum. -/
theorem difference_eq_mod (hdifference : a < base) :
    (a : Int) = (sum - b - carry.toNat) % base := by
  have hsame : (sum : Int) - b - carry.toNat = a - base * out.toNat := by
    push_cast [← Int.natCast_inj] at h
    omega
  rw [hsame, Int.sub_mul_emod_self_left]
  exact (Int.emod_eq_of_lt (Int.natCast_nonneg _) (Int.ofNat_lt.mpr hdifference)).symm

theorem out_iff_lt (hdifference : a < base) : out = true ↔ sum < b + carry.toNat := by
  cases out with
  | true =>
    rw [Bool.toNat_true] at h
    exact iff_of_true rfl (by omega)
  | false =>
    rw [Bool.toNat_false] at h
    exact iff_of_false Bool.false_ne_true (by omega)

/-- Numbers that add up above a place do so just if they do with that place, if it adds up. -/
theorem eq_lift {upperA upperB upperSum : Int} (hbase : 0 < base) :
    upperSum = upperA + upperB + out.toNat
      ↔ sum + base * upperSum = a + base * upperA + (b + base * upperB) + carry.toNat := by
  have hcast : (a : Int) + b + carry.toNat = sum + base * out.toNat := mod_cast h
  have hdifference : sum + base * upperSum - (a + base * upperA + (b + base * upperB) + carry.toNat)
      = base * (upperSum - (upperA + upperB + out.toNat)) := by
    linear_combination -hcast
  have hpositive : (base : Int) ≠ 0 := Int.natCast_ne_zero.mpr (Nat.ne_of_gt hbase)
  rw [← Int.sub_eq_zero, ← Int.sub_eq_zero (a := sum + base * upperSum), hdifference,
    Int.mul_eq_zero, or_iff_right hpositive]

end Carries

/-! ## One limb -/

/-- Two operands and a carry come to a sum, with what the flags then say of a carry and of an
overflow. Of a difference, the first operand is the sum. -/
structure Adds {n : Nat} (carry : Bool) (a b sum : BitVec n) (flags : Word) : Prop where
  digits : a.toNat + b.toNat + carry.toNat = sum.toNat + 2 ^ n * (Flags.get flags .carry).toNat
  overflow : Flags.get flags .overflow = true ↔ sum.toInt ≠ a.toInt + b.toInt + carry.toNat

section Flags

variable {n : Nat} (a b : BitVec n) (carry : Bool) (flags : Word)

theorem adds_add (hn : 4 < n) :
    Adds carry a b (add a b carry flags).value (add a b carry flags).flags := by
  have hpositive : 0 < n := Nat.zero_lt_of_lt hn
  have hreport := report_add a b carry flags hn
  constructor
  · rw [Bool.eq_iff_iff.mpr (hreport.carry.trans (carry_sum rfl hpositive).symm), Nat.mul_comm]
    exact (toNat_sum_add rfl hpositive).symm
  · exact hreport.overflow.trans (not_congr (isSigned_iff (ofInt_signed_sum rfl)))

/-- A difference borrows where its sum with the second operand carries. -/
theorem carry_difference (hn : 0 < n) : BitVec.carry n (a - b - ofCarry n carry) b carry = true
    ↔ a.toNat < b.toNat + carry.toNat := by
  have hadd := toNat_sum_add (eq_difference_add a b carry rfl) hn
  rw [Nat.mul_comm] at hadd
  exact out_iff_lt hadd.symm (a - b - ofCarry n carry).isLt

theorem adds_subtract (hn : 4 < n) :
    Adds carry (subtract a b carry flags).value b a (subtract a b carry flags).flags := by
  have hpositive : 0 < n := Nat.zero_lt_of_lt hn
  have hsum : a = (subtract a b carry flags).value + b + ofCarry n carry :=
    eq_difference_add a b carry rfl
  have hreport := report_subtract a b carry flags hn
  constructor
  · have hborrow : Flags.get (subtract a b carry flags).flags .carry = true
        ↔ a.toNat < b.toNat + carry.toNat := by
      rw [← not_not (a := _ < _), ← isUnsigned_difference]
      exact hreport.carry
    rw [Bool.eq_iff_iff.mpr (hborrow.trans (carry_difference a b carry hpositive).symm),
      Nat.mul_comm]
    exact (toNat_sum_add hsum hpositive).symm
  · refine hreport.overflow.trans ?_
    rw [isSigned_iff (ofInt_signed_difference hsum)]
    omega

end Flags

namespace Adds

variable {n : Nat} {a b sum : BitVec n} {carry : Bool} {flags : Word}
  (h : Adds carry a b sum flags) (hn : 0 < n)

include h hn

theorem eq_add : sum = a + b + ofCarry n carry := by
  refine BitVec.eq_of_toNat_eq ?_
  rw [BitVec.toNat_add, BitVec.toNat_add, toNat_ofCarry hn, Nat.mod_add_mod]
  exact sum_eq_mod h.digits sum.isLt

/-- What has been added to comes back when the same is subtracted. -/
theorem first_unique {a' : BitVec n} {flags' : Word} (h' : Adds carry a' b sum flags') :
    a' = a := by
  have hsame := (h'.eq_add hn).symm.trans (h.eq_add hn)
  rwa [BitVec.add_left_inj, BitVec.add_left_inj] at hsame

theorem overflow_iff :
    Flags.get flags .overflow = true ↔ ¬ IsSigned n (a.toInt + b.toInt + carry.toNat) := by
  rw [isSigned_iff (ofInt_signed_sum (h.eq_add hn))]
  exact h.overflow

theorem overflow_difference_iff :
    Flags.get flags .overflow = true ↔ ¬ IsSigned n (sum.toInt - b.toInt - carry.toNat) := by
  rw [isSigned_iff (ofInt_signed_difference (h.eq_add hn)), h.overflow]
  omega

end Adds

end Arithmetic

/-! ## All places -/

namespace Machine.Chain

variable {n : Nat} {gap : Machine → Machine → Prop} {handles : Machine → Limb n → Machine → Prop}
  {m last : Machine} {limbs : List (Limb n)}

/-- What holds at the beginning and is preserved holds whenever a limb is handled. -/
theorem invariant {Holds : Machine → Prop} (h : Chain gap handles m limbs last) (hm : Holds m)
    (hgap : ∀ m before, gap m before → Holds m → Holds before)
    (hhandles : ∀ m limb after, handles m limb after → Holds m → Holds after) :
    Chain gap (fun m limb after => Holds m ∧ handles m limb after) m limbs last := by
  induction h with
  | nil m => exact .nil m
  | cons reaches handled rest ih =>
    have hbefore := hgap _ _ reaches hm
    exact .cons reaches ⟨hbefore, handled⟩ (ih (hhandles _ _ _ handled hbefore))

theorem exists_handled (h : Chain gap handles m limbs last) :
    ∀ limb ∈ limbs, ∃ before after, handles before limb after := by
  induction h with
  | nil m => exact List.forall_mem_nil _
  | cons reaches handled rest ih => exact List.forall_mem_cons.mpr ⟨⟨_, _, handled⟩, ih⟩

section Carrying

variable (h : Chain gap handles m limbs last)
  (hgap : ∀ m before, gap m before → before.registers.flag .carry = m.registers.flag .carry)

include h hgap

/-- If every place adds up, the numbers do. -/
theorem ofDigits_eq {base : Nat} {a b sum : Limb n → Nat}
    (hplace : ∀ limb ∈ limbs, ∀ m after, handles m limb after →
      a limb + b limb + (m.registers.flag .carry).toNat
        = sum limb + base * (after.registers.flag .carry).toNat) :
    Nat.ofDigits base (limbs.map a) + Nat.ofDigits base (limbs.map b)
        + (m.registers.flag .carry).toNat
      = Nat.ofDigits base (limbs.map sum)
        + base ^ limbs.length * (last.registers.flag .carry).toNat := by
  induction h with
  | nil m =>
    simp only [List.map_nil, Nat.ofDigits_nil, List.length_nil, Nat.pow_zero, Nat.one_mul,
      Nat.zero_add]
  | @cons m before after last limb limbs reaches handled rest ih =>
    -- What the first place carries out is what the others begin with, and counts `base` times.
    obtain ⟨hlimb, hlimbs⟩ := List.forall_mem_cons.mp hplace
    have hfirst := hlimb before after handled
    have hrest := congrArg (base * ·) (ih hlimbs)
    simp only [hgap m before reaches, Nat.mul_add] at hfirst hrest
    simp only [List.map_cons, Nat.ofDigits_cons, List.length_cons, Nat.pow_succ']
    rw [Nat.mul_assoc]
    omega

/-- If every limb adds up, the numbers do; the highest limb overflows if the sum of the numbers
does. -/
theorem signed_iff (hn : 0 < n) {a b sum : Limb n → BitVec n} (hmore : limbs ≠ [])
    (hplace : ∀ m limb after, handles m limb after →
      Adds (m.registers.flag .carry) (a limb) (b limb) (sum limb) after.registers.flags) :
    last.registers.flag .overflow = true
      ↔ Limbs.signed (limbs.map sum) ≠ Limbs.signed (limbs.map a) + Limbs.signed (limbs.map b)
        + (m.registers.flag .carry).toNat := by
  induction h with
  | nil m => exact absurd rfl hmore
  | @cons m before after last limb limbs reaches handled rest ih =>
    have hfirst := hplace before limb after handled
    rw [hgap m before reaches] at hfirst
    cases limbs with
    | nil =>
      cases rest
      simp only [List.map_cons, List.map_nil, Limbs.signed_singleton]
      exact hfirst.overflow
    | cons next limbs =>
      -- This limb has no sign, so whether the numbers add up is decided further up.
      have hwide (part : Limb n → BitVec n) : Limbs.signed ((limb :: next :: limbs).map part)
          = (part limb).toNat + (2 ^ n : Nat) * Limbs.signed ((next :: limbs).map part) :=
        Limbs.signed_cons hn nofun
      rw [ih nofun, hwide, hwide, hwide]
      exact not_congr (eq_lift hfirst.digits (Nat.two_pow_pos n))

/-- A chain adds numbers of many limbs as one step adds two limbs. -/
theorem adds (hn : 0 < n) {a b sum : Limb n → BitVec n} (hmore : limbs ≠ [])
    (hplace : ∀ m limb after, handles m limb after →
      Adds (m.registers.flag .carry) (a limb) (b limb) (sum limb) after.registers.flags) :
    Adds (m.registers.flag .carry)
      (BitVec.ofNat (n * limbs.length) (Limbs.unsigned (limbs.map a)))
      (BitVec.ofNat (n * limbs.length) (Limbs.unsigned (limbs.map b)))
      (BitVec.ofNat (n * limbs.length) (Limbs.unsigned (limbs.map sum))) last.registers.flags := by
  have hlength (part : Limb n → BitVec n) : (limbs.map part).length = limbs.length :=
    List.length_map part
  constructor
  · have hdigits := ofDigits_eq h hgap fun limb _ m after handled =>
      (hplace m limb after handled).digits
    rw [Limbs.toNat_ofNat_unsigned (hlength a), Limbs.toNat_ofNat_unsigned (hlength b),
      Limbs.toNat_ofNat_unsigned (hlength sum), Nat.pow_mul]
    unfold Limbs.unsigned
    rw [List.map_map, List.map_map, List.map_map]
    exact hdigits
  · rw [Limbs.toInt_ofNat_unsigned (hlength a), Limbs.toInt_ofNat_unsigned (hlength b),
      Limbs.toInt_ofNat_unsigned (hlength sum)]
    exact signed_iff h hgap hn hmore hplace

end Carrying

end Machine.Chain

end CmStream
