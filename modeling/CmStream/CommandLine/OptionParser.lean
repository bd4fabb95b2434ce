import CmStream.Text.Numeral
import CmStream.Text.SystemText

/-!
# Parsers of options

The arguments of the program are taken apart by a parser that is no part of it. From left to right
it hands out one option, or one argument that is no option, at a time, and the value of an option
when it is asked for it. The program is stated over any such parser. What a parser is documented to
do is said here as well, law by law.
-/

namespace CmStream.CommandLine

/-- What a parser hands out. -/
inductive Argument where
  /-- An option of one letter, behind a hyphen. -/
  | letter (letter : Char)
  /-- An option by its name, behind two hyphens. -/
  | name (name : String)
  /-- An argument that is no option. -/
  | text (text : SystemText)
  deriving DecidableEq, Repr

/-- A parser of options as the program uses it. -/
structure OptionParser where
  State : Type
  Error : Type
  message : Error → String
  /-- In front of some arguments. -/
  start : List SystemText → State
  /-- Hands out what comes next, if anything does. -/
  next : State → Except Error (Option Argument) × State
  /-- The value of the option that has been handed out. -/
  value : State → Except Error SystemText × State
  /-- The error of an argument that the program has no use for. -/
  unexpected : Argument → Error
  /-- The error of a value that is no text. -/
  garbled : SystemText → Error
  /-- The error of a value that is not a number as it has to be. -/
  unreadable : String → Text.NumeralError → Error
  /-- How much is left to be handed out. -/
  left : State → Nat
  left_next : ∀ {s after argument}, next s = (.ok (some argument), after) → left after < left s
  left_value : ∀ {s after text}, value s = (.ok text, after) → left after ≤ left s

namespace OptionParser

variable (p : OptionParser)

/-- States that go together because what they hand out is the same and goes on in the same way. A
value is asked for behind an option with a name only. -/
structure Bisimulation (Related : p.State → p.State → Prop) : Prop where
  next : ∀ {s t}, Related s t → (p.next s).1 = (p.next t).1
  next_after : ∀ {s t}, Related s t → Related (p.next s).2 (p.next t).2
  value : ∀ {s t name}, Related s t → (p.next s).1 = .ok (some (.name name)) →
    (p.value (p.next s).2).1 = (p.value (p.next t).2).1
  value_after : ∀ {s t name}, Related s t → (p.next s).1 = .ok (some (.name name)) →
    Related (p.value (p.next s).2).2 (p.value (p.next t).2).2

/-- What is left to be handed out is the same. The states may still differ in what they know of the
past. -/
def Alike (s t : p.State) : Prop := ∃ Related, p.Bisimulation Related ∧ Related s t

/-- Letters of a group behind its hyphen. -/
def group (letters : List Char) : SystemText := .encode (String.ofList ('-' :: letters))

/-- Letters that are left of a group, in front of the other arguments. -/
def ungrouped : List Char → List SystemText → List SystemText
  | [], rest => rest
  | letters, rest => group letters :: rest

/-- The name of an option behind its hyphens. -/
def named (name : String) : SystemText := .encode ("--" ++ name)

/-- What a parser is documented to do with arguments of the common forms. -/
structure Documented : Prop where
  next_end : (p.next (p.start [])).1 = .ok none
  /-- What does not begin with a hyphen is no option, nor is a hyphen that stands alone. -/
  next_text : ∀ text rest, text = [SystemText.hyphen] ∨ text.head? ≠ some SystemText.hyphen →
    (p.next (p.start (text :: rest))).1 = .ok (some (.text text))
      ∧ p.Alike (p.next (p.start (text :: rest))).2 (p.start rest)
  /-- Letters behind one hyphen are options of their own. -/
  next_letter : ∀ letter letters rest, letter ≠ '-' → letters.head? ≠ some '-' →
    letters.head? ≠ some '=' →
    (p.next (p.start (group (letter :: letters) :: rest))).1 = .ok (some (.letter letter))
      ∧ p.Alike (p.next (p.start (group (letter :: letters) :: rest))).2
        (p.start (ungrouped letters rest))
  next_name : ∀ name rest, name ≠ "" → '=' ∉ name.toList →
    (p.next (p.start (named name :: rest))).1 = .ok (some (.name name))
      ∧ p.Alike (p.next (p.start (named name :: rest))).2 (p.start rest)
  /-- The value of an option is the argument behind it, whatever it looks like. -/
  value_next : ∀ name value rest, name ≠ "" → '=' ∉ name.toList →
    (p.value (p.next (p.start (named name :: value :: rest))).2).1 = .ok value
      ∧ p.Alike (p.value (p.next (p.start (named name :: value :: rest))).2).2 (p.start rest)

end OptionParser

end CmStream.CommandLine
