import CmStream.Machine.Flags

/-!
# Products and quotients

A product has twice the width of its factors and comes in two halves. A dividend comes in two
halves too; a quotient exists if the divisor is not zero and the quotient has the width of the
divisor. Signed quotients are truncated toward zero.
-/

namespace CmStream

namespace Product

/-- The halves of a product, and whether it needs more than its lower half. -/
structure Halves (n : Nat) where
  lower : BitVec n
  upper : BitVec n
  exceeds : Bool
  deriving DecidableEq, Repr

def unsigned {n : Nat} (a b : BitVec n) : Halves n :=
  let product := a.toNat * b.toNat
  let upper := BitVec.ofNat n (product >>> n)
  ⟨BitVec.ofNat n product, upper, upper != 0⟩

def signed {n : Nat} (a b : BitVec n) : Halves n :=
  let product := a.toInt * b.toInt
  let lower := BitVec.ofInt n product
  ⟨lower, BitVec.ofInt n (product >>> n), decide (lower.toInt ≠ product)⟩

/-- Carry and overflow both say whether a product needs more than its lower half. -/
def Halves.setFlags {n : Nat} (halves : Halves n) (flags : Word) : Word :=
  Flags.set (Flags.set flags .carry halves.exceeds) .overflow halves.exceeds

end Product

namespace Quotient

/-- A quotient and what remains. -/
structure Result (n : Nat) where
  quotient : BitVec n
  remainder : BitVec n
  deriving DecidableEq, Repr

def unsigned? {n : Nat} (upper lower divisor : BitVec n) : Option (Result n) :=
  let dividend := (upper ++ lower).toNat
  let quotient := dividend / divisor.toNat
  if divisor = 0 ∨ (BitVec.ofNat n quotient).toNat ≠ quotient then none
  else some ⟨BitVec.ofNat n quotient, BitVec.ofNat n (dividend % divisor.toNat)⟩

def signed? {n : Nat} (upper lower divisor : BitVec n) : Option (Result n) :=
  let dividend := (upper ++ lower).toInt
  let quotient := dividend.tdiv divisor.toInt
  if divisor = 0 ∨ (BitVec.ofInt n quotient).toInt ≠ quotient then none
  else some ⟨BitVec.ofInt n quotient, BitVec.ofInt n (dividend.tmod divisor.toInt)⟩

end Quotient

end CmStream
