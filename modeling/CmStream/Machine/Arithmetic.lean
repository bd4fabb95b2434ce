import CmStream.Machine.Flags

/-!
# Addition, subtraction and bitwise operations

Every operation is stated once for all widths. It takes the flags word that precedes it and
gives its result together with the flags word that follows. Three flags describe a result by
itself: zero, sign, and the parity of its lowest byte. Carry, overflow and the carry out of
the lowest four bits depend on the operands too.
-/

namespace CmStream

/-- A result and the flags word that goes with it. -/
structure Computed (n : Nat) where
  value : BitVec n
  flags : Word
  deriving DecidableEq, Repr

/-- Is the number of ones in a byte even? -/
def evenOnes (b : Byte) : Bool := (List.range 8).countP b.getLsbD % 2 == 0

namespace Flags

/-- Zero, sign and parity as a result has them; the other flags stay. -/
def describe {n : Nat} (flags : Word) (value : BitVec n) : Word :=
  let flags := set flags .zero (value == 0)
  let flags := set flags .sign value.msb
  set flags .parity (evenOnes (value.setWidth 8))

end Flags

namespace Arithmetic

/-- Zero or one at the width of an operand. -/
def ofCarry (n : Nat) (carry : Bool) : BitVec n := BitVec.ofNat n carry.toNat

def add {n : Nat} (a b : BitVec n) (carry : Bool) (flags : Word) : Computed n :=
  let value := a + b + ofCarry n carry
  let flags := Flags.set flags .carry (BitVec.carry n a b carry)
  let flags := Flags.set flags .overflow ((a ^^^ value) &&& (b ^^^ value)).msb
  let flags := Flags.set flags .auxiliary ((a ^^^ b ^^^ value).getLsbD 4)
  ⟨value, Flags.describe flags value⟩

def subtract {n : Nat} (a b : BitVec n) (borrow : Bool) (flags : Word) : Computed n :=
  let value := a - b - ofCarry n borrow
  let flags := Flags.set flags .carry (decide (a.toNat < b.toNat + borrow.toNat))
  let flags := Flags.set flags .overflow ((a ^^^ b) &&& (a ^^^ value)).msb
  let flags := Flags.set flags .auxiliary ((a ^^^ b ^^^ value).getLsbD 4)
  ⟨value, Flags.describe flags value⟩

/-- The flags after a bitwise operation with the given result: no carry of any kind. -/
def bitwise {n : Nat} (value : BitVec n) (flags : Word) : Computed n :=
  let flags := Flags.set flags .carry false
  let flags := Flags.set flags .overflow false
  let flags := Flags.set flags .auxiliary false
  ⟨value, Flags.describe flags value⟩

/-- Adds one and leaves the carry as it was. -/
def increment {n : Nat} (a : BitVec n) (flags : Word) : Computed n :=
  let sum := add a (ofCarry n true) false flags
  { sum with flags := Flags.set sum.flags .carry (Flags.get flags .carry) }

/-- Subtracts one and leaves the carry as it was. -/
def decrement {n : Nat} (a : BitVec n) (flags : Word) : Computed n :=
  let difference := subtract a (ofCarry n true) false flags
  { difference with flags := Flags.set difference.flags .carry (Flags.get flags .carry) }

/-- The operations with two operands that an instruction chooses by number. -/
inductive Operation where
  | add | or | adc | sbb | and | sub | xor | cmp
  deriving DecidableEq, Repr

namespace Operation

/-- The operations in the order of their numbers. -/
def all : List Operation := [add, or, adc, sbb, and, sub, xor, cmp]

def ofIndex (index : BitVec 3) : Operation := select all rfl index

/-- Does the result replace the first operand? A comparison only sets flags. -/
def keepsResult : Operation → Bool
  | cmp => false
  | _ => true

def compute {n : Nat} (operation : Operation) (a b : BitVec n) (flags : Word) : Computed n :=
  match operation with
  | add => Arithmetic.add a b false flags
  | or => bitwise (a ||| b) flags
  | adc => Arithmetic.add a b (Flags.get flags .carry) flags
  | sbb => subtract a b (Flags.get flags .carry) flags
  | and => bitwise (a &&& b) flags
  | sub => subtract a b false flags
  | xor => bitwise (a ^^^ b) flags
  | cmp => subtract a b false flags

end Operation

end Arithmetic

end CmStream
