import CmStream.Word

/-!
# Reading text

What a reader makes of lines that a program has written: the lines themselves, the words of a line,
and the numbers that words stand for. Signs and blanks only keep words apart.
-/

namespace CmStream.Text

/-- The lines of a text. What stands behind the last end of line is one more, unless it is empty. -/
def lines (text : String) : List String :=
  let pieces := text.toList.splitOn '\n'
  (if pieces.getLast? = some [] then pieces.dropLast else pieces).map String.ofList

/-- Does a character keep words apart? -/
def separates (c : Char) : Bool := !c.isAlphanum

/-- The words of a line: letters and digits that stand together. -/
def words (line : String) : List String :=
  ((line.toList.splitOnP separates).filter (· ≠ [])).map String.ofList

/-! ## Numbers -/

/-- The number that a digit stands for, up to fifteen. -/
def digit? (c : Char) : Option Nat :=
  if c.isDigit then some (c.toNat - '0'.toNat)
  else if 'a' ≤ c ∧ c ≤ 'f' then some (c.toNat - 'a'.toNat + 10)
  else none

/-- Reads more digits of a base behind those that have given `value`. -/
def number? (base value : Nat) : List Char → Option Nat
  | [] => some value
  | c :: rest =>
    match digit? c with
    | some digit => if digit < base then number? base (value * base + digit) rest else none
    | none => none

/-- Reads a decimal number. -/
def decimal? (word : String) : Option Nat :=
  if word = "" then none else number? 10 0 word.toList

/-- Reads a hexadecimal number that is marked as one. -/
def marked? (word : String) : Option Nat :=
  match word.toList with
  | '0' :: 'x' :: digit :: digits => number? 16 0 (digit :: digits)
  | _ => none

/-- Reads sixteen bits from four hexadecimal digits. -/
def fourDigits? (word : String) : Option Word :=
  if word.length = 4 then (number? 16 0 word.toList).map (BitVec.ofNat 16) else none

end CmStream.Text
