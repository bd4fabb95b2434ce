import CmStream.Word

/-!
# Operations that are not defined everywhere

A sum or a product is defined if it has the width of its operands, a difference if it is not
negative, a quotient and a remainder if the divisor is not zero, a shift if it goes by fewer places
than there are bits and loses none to the left, and a part of a list if the list has it. Where an
operation is not defined it gives `none`. Operations that wrap are not among these, nor are
conversions, which cut a number down.
-/

namespace CmStream

namespace Checked

/-- A computation that may fail with an error, and that may turn out not to be defined. -/
abbrev Attempt (ε α : Type) := ExceptT ε Option α

/-- The attempt that is not defined. -/
def undefined {ε α : Type} : Attempt ε α := ExceptT.mk none

namespace Number

/-! ## Numbers without a sign -/

/-- A number, if it has no more than the given bits. -/
def fit (bits n : Nat) : Option Nat := if n < 1 <<< bits then some n else none

def add (bits a b : Nat) : Option Nat := fit bits (a + b)

def subtract (a b : Nat) : Option Nat := if b ≤ a then some (a - b) else none

def multiply (bits a b : Nat) : Option Nat := fit bits (a * b)

def shiftLeft (bits a places : Nat) : Option Nat :=
  if places < bits then fit bits (a <<< places) else none

def shiftRight (bits a places : Nat) : Option Nat :=
  if places < bits then some (a >>> places) else none

def divide (a b : Nat) : Option Nat := if b = 0 then none else some (a / b)

def remainder (a b : Nat) : Option Nat := if b = 0 then none else some (a % b)

theorem add_eq_some {bits a b : Nat} (h : a + b < 1 <<< bits) : add bits a b = some (a + b) :=
  if_pos h

theorem subtract_eq_some {a b : Nat} (h : b ≤ a) : subtract a b = some (a - b) := if_pos h

theorem multiply_eq_some {bits a b : Nat} (h : a * b < 1 <<< bits) :
    multiply bits a b = some (a * b) :=
  if_pos h

theorem shiftLeft_eq_some {bits a places : Nat} (hplaces : places < bits)
    (h : a <<< places < 1 <<< bits) : shiftLeft bits a places = some (a <<< places) := by
  rw [shiftLeft, if_pos hplaces]
  exact if_pos h

theorem shiftRight_eq_some {bits places : Nat} (a : Nat) (hplaces : places < bits) :
    shiftRight bits a places = some (a >>> places) :=
  if_pos hplaces

theorem divide_eq_some {b : Nat} (a : Nat) (h : b ≠ 0) : divide a b = some (a / b) := if_neg h

theorem remainder_eq_some {b : Nat} (a : Nat) (h : b ≠ 0) : remainder a b = some (a % b) :=
  if_neg h

end Number

namespace Signed

/-! ## Numbers with a sign

Division truncates toward zero. The remainder is not defined either where the quotient of the least
number by minus one would have to be. -/

/-- A number, if it has no more than the given bits, one of them for the sign. -/
def fit (bits : Nat) (n : Int) : Option Int :=
  if -(1 <<< (bits - 1) : Nat) ≤ n ∧ n < (1 <<< (bits - 1) : Nat) then some n else none

def multiply (bits : Nat) (a b : Int) : Option Int := fit bits (a * b)

def shiftRight (bits : Nat) (a : Int) (places : Nat) : Option Int :=
  if places < bits then some (a >>> places) else none

def divide (bits : Nat) (a b : Int) : Option Int :=
  if b = 0 then none else fit bits (a.tdiv b)

def remainder (bits : Nat) (a b : Int) : Option Int :=
  (divide bits a b).map fun _ => a.tmod b

end Signed

/-- The entries of a list from one place up to another. -/
def slice {α : Type} (entries : List α) (start stop : Nat) : Option (List α) :=
  if start ≤ stop ∧ stop ≤ entries.length then some ((entries.take stop).drop start) else none

theorem slice_add_eq_some {α : Type} {entries : List α} {start count : Nat}
    (h : start + count ≤ entries.length) :
    slice entries start (start + count) = some ((entries.drop start).take count) := by
  rw [slice, if_pos ⟨Nat.le_add_right start count, h⟩, List.drop_take, Nat.add_sub_cancel_left]

/-- Among the numbers of eight bits there is no sum of 200 and 100. -/
example : Number.add 8 200 100 = none ∧ Number.add 16 200 100 = some 300 := by decide

/-- The least number of eight bits with a sign has no quotient by minus one, and no remainder. -/
example : Signed.divide 8 (-128) (-1) = none ∧ Signed.remainder 8 (-128) (-1) = none := by decide

end Checked

end CmStream
