import CmStream.Machine.Arithmetic

/-!
# Shifts and rotations

An operand is shifted one place at a time, as often as the count says; only the five lowest
bits of the count matter. Carry and overflow are those of the last place. A count of zero
changes nothing, no flag either. Rotations leave the flags that describe a result alone.
-/

namespace CmStream

inductive Shift where
  | rol | ror | rcl | rcr | shl | shr | sar
  deriving DecidableEq, Repr

namespace Shift

/-- The shifts in the order of their numbers; the arithmetic shift to the left has a number of
its own and is the logical one. -/
def all : List Shift := [rol, ror, rcl, rcr, shl, shr, shl, sar]

def ofIndex (index : BitVec 3) : Shift := select all rfl index

/-- Does the bit that leaves at one end come in again at the other, at once or by way of the
carry? -/
def isRotation : Shift → Bool
  | rol | ror | rcl | rcr => true
  | shl | shr | sar => false

/-- An operand on its way, with the flags that the last place has set. -/
structure State (n : Nat) where
  value : BitVec n
  carry : Bool
  overflow : Bool
  deriving DecidableEq, Repr

/-- One place to the left, with the given bit at the lower end. -/
def left {n : Nat} (value : BitVec n) (incoming : Bool) : BitVec n :=
  (value <<< 1) ||| Arithmetic.ofCarry n incoming

/-- One place to the right, with the given bit at the upper end. -/
def right {n : Nat} (value : BitVec n) (incoming : Bool) : BitVec n :=
  (value >>> 1) ||| (if incoming then BitVec.intMin n else 0)

/-- The state after one place to the left. Overflow says that the sign is not the carry. -/
def leftState {n : Nat} (value : BitVec n) (incoming : Bool) : State n :=
  let shifted := left value incoming
  ⟨shifted, value.msb, shifted.msb != value.msb⟩

/-- The state after one place of rotation to the right. Overflow says that the two topmost bits
differ. -/
def rightState {n : Nat} (value : BitVec n) (incoming : Bool) : State n :=
  let shifted := right value incoming
  ⟨shifted, value.getLsbD 0, shifted.msb != (shifted <<< 1).msb⟩

/-- Shifts by one place. -/
def place {n : Nat} (shift : Shift) (s : State n) : State n :=
  match shift with
  | rol => leftState s.value s.value.msb
  | ror => rightState s.value (s.value.getLsbD 0)
  | rcl => leftState s.value s.carry
  | rcr => rightState s.value s.carry
  | shl => leftState s.value false
  | shr => ⟨right s.value false, s.value.getLsbD 0, s.value.msb⟩
  | sar => ⟨right s.value s.value.msb, s.value.getLsbD 0, false⟩

/-- The number of places that a count stands for. -/
def places (count : Byte) : Nat := count.toNat % 32

def compute {n : Nat} (shift : Shift) (value : BitVec n) (count : Byte) (flags : Word) :
    Computed n :=
  if places count = 0 then ⟨value, flags⟩
  else
    let start : State n := ⟨value, Flags.get flags .carry, false⟩
    let last := Nat.repeat shift.place (places count) start
    let flags := Flags.set flags .carry last.carry
    let flags := Flags.set flags .overflow last.overflow
    ⟨last.value, if shift.isRotation then flags else Flags.describe flags last.value⟩

end Shift

end CmStream
