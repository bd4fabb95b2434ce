import CmStream.Text.Hex
import CmStream.Text.Shapeless

/-!
# Text in quotes

A message shows a piece of the user's text between quotation marks, on one line and so that it
can be told what it was: a backslash marks what does not stand for itself.
-/

namespace CmStream.Text

/-- The character itself, or the escape that stands for it. -/
def escaped (c : Char) : List Char :=
  if c = '\t' then ['\\', 't']
  else if c = '\n' then ['\\', 'n']
  else if c = '\r' then ['\\', 'r']
  else if c = '\x00' then ['\\', '0']
  else if c = '\\' ∨ c = '"' then ['\\', c]
  else if isShapeless c then
    ['\\', 'u', '\x7b'] ++ Nat.toDigits 16 c.toNat ++ ['\x7d']
  else [c]

/-- A text between quotation marks, its own quotation marks and backslashes escaped. -/
def quoted (text : String) : String :=
  String.ofList ('"' :: (text.toList.flatMap escaped ++ ['"']))

end CmStream.Text
