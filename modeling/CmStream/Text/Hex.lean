import CmStream.Word

/-!
# Numbers in text

Hexadecimal numbers are written in lower case, with leading zeros up to a stated number of
digits and never cut off. Columns of a table are filled with blanks on the left.
-/

namespace CmStream.Text

/-- At least `digits` hexadecimal digits. -/
def hex (digits n : Nat) : String :=
  String.ofList ((Nat.toDigits 16 n).leftpad digits '0')

/-- Like `hex`, marked as hexadecimal. -/
def markedHex (digits n : Nat) : String :=
  "0x" ++ hex digits n

/-- A cell of at least `width` characters with its text at the right end. -/
def rightAligned (width : Nat) (text : String) : String :=
  String.ofList (text.toList.leftpad width ' ')

end CmStream.Text
