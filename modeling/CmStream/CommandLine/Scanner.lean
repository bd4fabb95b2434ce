import CmStream.CommandLine.OptionParser
import CmStream.Text.Quoted

/-!
# The parser of the command

Options and file names may be mixed. An option is a word behind two hyphens, which may carry a
value behind an equals sign, or one of a group of letters behind a single hyphen. Behind two
hyphens that stand alone everything is a file name; a single hyphen and the empty text are file
names too.
-/

namespace CmStream.CommandLine

open SystemText (hyphen equals)

inductive ArgumentError where
  | invalidOption (option : String)
  | invalidText (text : SystemText)
  | missingArgument (option : String)
  | unexpectedArgument (option : String) (value : SystemText)
  | invalidUnicode (value : SystemText)
  | invalidNumber (value : String) (error : Text.NumeralError)
  deriving DecidableEq, Repr

namespace ArgumentError

def message : ArgumentError → String
  | invalidOption option => "invalid option '" ++ option ++ "'"
  | invalidText text => "unexpected argument " ++ text.quoted
  | missingArgument option => "missing argument for option '" ++ option ++ "'"
  | unexpectedArgument option value =>
    "unexpected argument for option '" ++ option ++ "': " ++ value.quoted
  | invalidUnicode value => "argument is invalid unicode: " ++ value.quoted
  | invalidNumber value error =>
    "cannot parse argument " ++ Text.quoted value ++ ": " ++ error.message

/-- The error of an argument that there is no use for. -/
def ofArgument : Argument → ArgumentError
  | .letter letter => invalidOption (String.ofList ['-', letter])
  | .name name => invalidOption ("--" ++ name)
  | .text text => invalidText text

end ArgumentError

namespace Scanner

/-- What an argument is by how it begins. -/
inductive Form where
  | text
  /-- A group of letters behind one hyphen. -/
  | letters (first : Byte) (more : SystemText)
  /-- Two hyphens that stand alone. -/
  | ending
  /-- A name behind two hyphens, maybe with a value. -/
  | named (first : Byte) (more : SystemText)
  deriving DecidableEq, Repr

def Form.of : SystemText → Form
  | first :: second :: rest =>
    if first ≠ hyphen then text
    else if second ≠ hyphen then letters second rest
    else
      match rest with
      | [] => ending
      | third :: more => named third more
  | _ => text

inductive Position where
  | between
  /-- Within a group, behind its first letter at least. -/
  | inGroup (letters : SystemText)
  /-- Behind a name, in front of the value that an equals sign gives it. -/
  | atValue (value : SystemText)
  | behindOptions
  deriving DecidableEq, Repr

end Scanner

/-- A way through some arguments. -/
structure Scanner where
  /-- The arguments that have not been begun. -/
  arguments : List SystemText
  position : Scanner.Position
  /-- The option that has been handed out last, as it is written. -/
  option : String
  deriving DecidableEq, Repr

namespace Scanner

/-- What is handed out, and where that leaves the scanner. -/
abbrev Answer : Type := Except ArgumentError (Option Argument) × Scanner

def start (arguments : List SystemText) : Scanner := ⟨arguments, .between, ""⟩

/-- Leaves the argument that has been begun. -/
def leave (s : Scanner) : Scanner := { s with position := .between }

/-- Hands out the first letter of a group. -/
def handLetter (group : SystemText) (arguments : List SystemText) : Answer :=
  let (letter, more) := group.takeCharacter
  (.ok (some (.letter letter)), ⟨arguments, .inGroup more, String.ofList ['-', letter]⟩)

/-- Hands out a name, which ends where an equals sign gives it a value. -/
def handName (bytes : SystemText) (arguments : List SystemText) : Answer :=
  let name := SystemText.shown (bytes.takeWhile (· ≠ equals))
  match bytes.dropWhile (· ≠ equals) with
  | [] => (.ok (some (.name name)), ⟨arguments, .between, "--" ++ name⟩)
  | _ :: value => (.ok (some (.name name)), ⟨arguments, .atValue value, "--" ++ name⟩)

/-- Hands out an argument behind the end of the options. -/
def nextText (s : Scanner) : Answer :=
  match s.arguments with
  | [] => (.ok none, s)
  | text :: rest => (.ok (some (.text text)), { s with arguments := rest })

/-- Begins an argument, and hands out the first of its options if it has some. -/
def nextArgument (s : Scanner) : Answer :=
  match s.arguments with
  | [] => (.ok none, s)
  | argument :: rest =>
    match Form.of argument with
    | .text => (.ok (some (.text argument)), ⟨rest, .between, s.option⟩)
    | .letters first more => handLetter (first :: more) rest
    | .ending => nextText ⟨rest, .behindOptions, s.option⟩
    | .named first more => handName (first :: more) rest

/-- Hands out what comes next. A value that nothing has asked for is an error, and an equals sign
behind a letter makes the rest of the group a value. -/
def next (s : Scanner) : Answer :=
  match s.position with
  | .between | .inGroup [] => s.nextArgument
  | .inGroup (first :: more) =>
    if first = equals then (.error (.unexpectedArgument s.option more), s.leave)
    else handLetter (first :: more) s.arguments
  | .atValue value => (.error (.unexpectedArgument s.option value), s.leave)
  | .behindOptions => s.nextText

/-- The value of the option that has been handed out: what is left of its argument, or else the next
argument whatever it looks like. -/
def value (s : Scanner) : Except ArgumentError SystemText × Scanner :=
  match s.position with
  | .atValue value => (.ok value, s.leave)
  | .inGroup (first :: more) => (.ok (if first = equals then more else first :: more), s.leave)
  | _ =>
    match s.arguments with
    | [] => (.error (.missingArgument s.option), s)
    | value :: rest => (.ok value, { s with arguments := rest })

/-! ## What is left -/

/-- The bytes of some arguments, and one more for each of them. -/
def size : List SystemText → Nat
  | [] => 0
  | argument :: rest => argument.length + 1 + size rest

/-- The bytes that are left of a group. -/
def Position.size : Position → Nat
  | inGroup letters => letters.length
  | _ => 0

def left (s : Scanner) : Nat := s.position.size + size s.arguments

variable {s after : Scanner} {argument : Argument}

theorem left_nextText (h : s.nextText = (.ok (some argument), after)) : after.left < s.left := by
  unfold nextText at h
  split at h <;> cases h
  case h_2 text rest harguments =>
    rw [left, left, harguments, size]
    dsimp only
    omega

/-- A letter takes one byte at least. -/
theorem left_handLetter (first : Byte) (more : SystemText) (arguments : List SystemText) :
    (handLetter (first :: more) arguments).2.left ≤ more.length + size arguments := by
  exact Nat.add_le_add_right (SystemText.length_takeCharacter first more) _

theorem left_handName (bytes : SystemText) (arguments : List SystemText) :
    (handName bytes arguments).2.left = size arguments := by
  unfold handName
  dsimp only
  split <;> exact Nat.zero_add _

theorem Form.length_of_letters {argument more : SystemText} {first : Byte}
    (h : Form.of argument = .letters first more) : argument.length = more.length + 2 := by
  unfold Form.of at h
  split at h
  case h_1 =>
    split at h
    case isTrue => cases h
    case isFalse =>
      split at h
      case isTrue =>
        cases h
        rfl
      case isFalse => split at h <;> cases h
  case h_2 => cases h

theorem left_nextArgument (h : s.nextArgument = (.ok (some argument), after)) :
    after.left < size s.arguments := by
  unfold nextArgument at h
  split at h
  case h_1 => cases h
  case h_2 first rest harguments =>
    rw [harguments, size]
    split at h
    case h_1 =>
      cases h
      dsimp only [left, Position.size]
      omega
    case h_2 letter more hform =>
      have hle := left_handLetter letter more rest
      have hlength := Form.length_of_letters hform
      rw [h] at hle
      dsimp only at hle
      omega
    case h_3 =>
      have hless := left_nextText h
      rw [left.eq_def ⟨rest, .behindOptions, s.option⟩] at hless
      dsimp only [Position.size] at hless
      omega
    case h_4 first more _ =>
      have hsame := left_handName (first :: more) rest
      rw [h] at hsame
      dsimp only at hsame
      omega

theorem left_next (h : s.next = (.ok (some argument), after)) : after.left < s.left := by
  unfold next at h
  split at h
  case h_1 | h_2 => exact Nat.lt_of_lt_of_le (left_nextArgument h) (Nat.le_add_left _ _)
  case h_3 first more hposition =>
    split at h
    case isTrue => cases h
    case isFalse =>
      have hle := left_handLetter first more s.arguments
      rw [h] at hle
      rw [left.eq_def s, hposition]
      dsimp only [Position.size, List.length_cons] at hle ⊢
      omega
  case h_4 => cases h
  case h_5 => exact left_nextText h

theorem left_value {value : SystemText} (h : s.value = (.ok value, after)) :
    after.left ≤ s.left := by
  unfold Scanner.value at h
  split at h
  case h_1 | h_2 =>
    cases h
    dsimp only [left, leave, Position.size]
    omega
  case h_3 =>
    split at h <;> cases h
    case h_2 rest harguments =>
      rw [left, left, harguments, size]
      dsimp only
      omega

end Scanner

def scanner : OptionParser where
  State := Scanner
  Error := ArgumentError
  message := ArgumentError.message
  start := Scanner.start
  next := Scanner.next
  value := Scanner.value
  unexpected := ArgumentError.ofArgument
  garbled := .invalidUnicode
  unreadable := .invalidNumber
  left := Scanner.left
  left_next := Scanner.left_next
  left_value := Scanner.left_value

end CmStream.CommandLine
