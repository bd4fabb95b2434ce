import CmStream.CommandLine.Scanner
import CmStream.Proofs.Text.SystemText
import Mathlib.Data.List.TakeWhile

/-!
# The parser of the command does what is documented

Between two arguments, a scanner still knows the option that it has handed out last, and it may be
at the end of a group of letters; none of that shows in what it hands out next. So its states are
compared once this has been forgotten.
-/

namespace CmStream.CommandLine

open SystemText (hyphen equals encode encodeChar)

namespace OptionParser

theorem named_eq (name : String) : named name = hyphen :: hyphen :: encode name := by
  have hlist : "--" ++ name = String.ofList ('-' :: '-' :: name.toList) := by
    rw [String.ofList_cons, String.ofList_cons, String.ofList_toList]
    rfl
  rw [named, hlist, SystemText.encode_ofList_cons, SystemText.encode_ofList_cons,
    String.ofList_toList]
  rfl

theorem group_eq (letters : List Char) :
    group letters = hyphen :: encode (String.ofList letters) := SystemText.encode_ofList_cons _ _

/-- The first byte of some letters, which is no sign if the first letter is none. -/
theorem exists_letters_eq (letter : Char) (letters : List Char) :
    ∃ first more, encode (String.ofList (letter :: letters)) = first :: more
      ∧ (first = hyphen → letter = '-') ∧ (first = equals → letter = '=') := by
  obtain ⟨first, more, hfirst⟩ := SystemText.exists_encodeChar_eq_cons letter
  have hmem : first ∈ encodeChar letter := by rw [hfirst]; exact List.mem_cons_self
  refine ⟨first, more ++ encode (String.ofList letters), ?_, ?_, ?_⟩
  · rw [SystemText.encode_ofList_cons, hfirst, List.cons_append]
  · rintro rfl
    exact SystemText.eq_of_mem_encodeChar rfl (by decide) hmem
  · rintro rfl
    exact SystemText.eq_of_mem_encodeChar rfl (by decide) hmem

end OptionParser

namespace Scanner

/-- Forgets what does not show any more: the last option, where no value is left for it, and that
letters have been part of a larger group. -/
def settled (s : Scanner) : Scanner :=
  match s.position with
  | .between | .inGroup [] => start s.arguments
  | .inGroup (first :: more) =>
    if first = hyphen ∨ first = equals then s
    else start ((hyphen :: first :: more) :: s.arguments)
  | .atValue _ => s
  | .behindOptions => ⟨s.arguments, .behindOptions, ""⟩

/-- Two answers that hand out the same and go on in the same way. Behind a name, the scanners still
have the same option, which an error about its value shows. -/
structure Answer.Same (answer other : Answer) : Prop where
  handed : answer.1 = other.1
  settled : answer.2.settled = other.2.settled
  named : ∀ name, answer.1 = .ok (some (.name name)) → answer.2 = other.2

namespace Answer.Same

variable {answer other third : Answer}

theorem refl (answer : Answer) : answer.Same answer := ⟨rfl, rfl, fun _ _ => rfl⟩

theorem symm (h : answer.Same other) : other.Same answer :=
  ⟨h.handed.symm, h.settled.symm, fun name hname => (h.named name (h.handed.trans hname)).symm⟩

theorem trans (h : answer.Same other) (h' : other.Same third) : answer.Same third :=
  ⟨h.handed.trans h'.handed, h.settled.trans h'.settled,
    fun name hname => (h.named name hname).trans (h'.named name (h.handed.symm.trans hname))⟩

end Answer.Same

variable {s : Scanner} {letter : Char} {name : String} {text : SystemText}

theorem same_nextText (arguments : List SystemText) (option option' : String) :
    Answer.Same (nextText ⟨arguments, .behindOptions, option⟩)
      (nextText ⟨arguments, .behindOptions, option'⟩) := by
  cases arguments with
  | nil => exact ⟨rfl, rfl, nofun⟩
  | cons text rest => exact ⟨rfl, rfl, nofun⟩

theorem same_nextArgument (arguments : List SystemText) {position : Position} (option : String)
    (hidle : position = .between ∨ position = .inGroup []) :
    Answer.Same (nextArgument (start arguments)) (nextArgument ⟨arguments, position, option⟩) := by
  cases arguments with
  | nil => rcases hidle with rfl | rfl <;> exact ⟨rfl, rfl, nofun⟩
  | cons argument rest =>
    unfold nextArgument start
    dsimp only
    cases Form.of argument with
    | text => exact ⟨rfl, rfl, nofun⟩
    | letters | named => exact .refl _
    | ending => exact same_nextText rest "" option

theorem nextArgument_group {first : Byte} (h : first ≠ hyphen) (more : SystemText)
    (rest : List SystemText) (position : Position) (option : String) :
    nextArgument ⟨(hyphen :: first :: more) :: rest, position, option⟩
      = handLetter (first :: more) rest := by
  have hform : Form.of (hyphen :: first :: more) = .letters first more := by
    unfold Form.of
    dsimp only
    rw [if_neg (not_not_intro rfl), if_pos h]
  rw [nextArgument]
  dsimp only
  rw [hform]

/-- Nothing that matters has been forgotten. -/
theorem same_next (s : Scanner) : Answer.Same s.settled.next s.next := by
  obtain ⟨arguments, position, option⟩ := s
  cases position with
  | between => exact same_nextArgument arguments option (.inl rfl)
  | atValue => exact .refl _
  | behindOptions => exact same_nextText arguments "" option
  | inGroup group =>
    cases group with
    | nil => exact same_nextArgument arguments option (.inr rfl)
    | cons first more =>
      rw [settled]
      dsimp only
      split
      case isTrue => exact .refl _
      case isFalse hfirst =>
        obtain ⟨hhyphen, hequals⟩ := not_or.mp hfirst
        rw [next, next]
        dsimp only [start]
        rw [nextArgument_group hhyphen, if_neg hequals]
        exact .refl _

theorem bisimulation : scanner.Bisimulation fun s t : Scanner => s.settled = t.settled := by
  have hsame : ∀ s t : Scanner, s.settled = t.settled → Answer.Same s.next t.next := by
    intro s t h
    have hs := same_next s
    rw [h] at hs
    exact hs.symm.trans (same_next t)
  constructor
  case next => exact fun h => (hsame _ _ h).handed
  case next_after => exact fun h => (hsame _ _ h).settled
  case value => exact fun h hname => congrArg (·.value.1) ((hsame _ _ h).named _ hname)
  case value_after =>
    exact fun h hname => congrArg (·.value.2.settled) ((hsame _ _ h).named _ hname)

/-! ## What is documented -/

theorem next_text (rest : List SystemText) (h : text = [hyphen] ∨ text.head? ≠ some hyphen) :
    next (start (text :: rest)) = (.ok (some (.text text)), start rest) := by
  have hform : Form.of text = .text := by
    unfold Form.of
    split
    case h_1 first second more =>
      rcases h with h | h
      · cases h
      · rw [if_pos]
        rintro rfl
        exact h rfl
    case h_2 => rfl
  rw [next, start]
  dsimp only
  rw [nextArgument]
  dsimp only
  rw [hform]
  rfl

theorem next_group (letters : List Char) (rest : List SystemText) (h : letter ≠ '-') :
    next (start (OptionParser.group (letter :: letters) :: rest))
      = (.ok (some (.letter letter)),
        ⟨rest, .inGroup (encode (String.ofList letters)), String.ofList ['-', letter]⟩) := by
  obtain ⟨first, more, hletters, hhyphen, -⟩ := OptionParser.exists_letters_eq letter letters
  rw [next, start, OptionParser.group_eq, hletters]
  dsimp only
  rw [nextArgument_group (mt hhyphen h), handLetter, ← hletters, SystemText.encode_ofList_cons,
    SystemText.takeCharacter_encodeChar_append]

theorem next_name (rest : List SystemText) (hname : name ≠ "") (hequals : '=' ∉ name.toList) :
    next (start (OptionParser.named name :: rest))
      = (.ok (some (.name name)), ⟨rest, .between, "--" ++ name⟩) := by
  -- No byte of the name is an equals sign, so the name goes to the end of the argument.
  have hwhole : ∀ byte ∈ encode name, decide (byte ≠ equals) = true := by
    intro byte hbyte
    exact decide_eq_true
      (ne_of_mem_of_not_mem hbyte (SystemText.notMem_encode rfl (by decide) hequals))
  obtain ⟨first, more, hbytes⟩ : ∃ first more, encode name = first :: more := by
    obtain ⟨c, rest, hlist⟩ := List.exists_cons_of_ne_nil (mt String.toList_eq_nil_iff.mp hname)
    obtain ⟨first, more, hfirst, -⟩ := OptionParser.exists_letters_eq c rest
    rw [← hlist, String.ofList_toList] at hfirst
    exact ⟨first, more, hfirst⟩
  have hform : Form.of (OptionParser.named name) = .named first more := by
    rw [OptionParser.named_eq, hbytes]
    unfold Form.of
    dsimp only
    rw [if_neg (not_not_intro rfl), if_neg (not_not_intro rfl)]
  rw [next, start]
  dsimp only
  rw [nextArgument]
  dsimp only
  rw [hform]
  dsimp only
  rw [← hbytes, handName, List.dropWhile_eq_nil_iff.mpr hwhole,
    List.takeWhile_eq_self_iff.mpr hwhole, SystemText.shown_encode]

end Scanner

/-- Scanners that are the same once settled hand out the same. -/
theorem Scanner.alike {s t : Scanner} (h : s.settled = t.settled) : scanner.Alike s t :=
  ⟨_, bisimulation, h⟩

/-- The parser of the command is one of those that the program is stated over. -/
theorem scanner_documented : scanner.Documented where
  next_end := rfl
  next_text text rest h := by
    have hnext : scanner.next (scanner.start (text :: rest)) = _ := Scanner.next_text rest h
    rw [hnext]
    exact ⟨rfl, Scanner.alike rfl⟩
  next_letter letter letters rest hhyphen hbehind hequals := by
    have hnext : scanner.next (scanner.start (OptionParser.group (letter :: letters) :: rest))
        = _ := Scanner.next_group letters rest hhyphen
    rw [hnext]
    refine ⟨rfl, Scanner.alike ?_⟩
    cases letters with
    | nil => rfl
    | cons second letters =>
      obtain ⟨first, more, hletters, hfirst, hfirst'⟩ :=
        OptionParser.exists_letters_eq second letters
      have hplain : ¬ (first = hyphen ∨ first = equals) := by
        rintro (rfl | rfl)
        · exact hbehind (congrArg some (hfirst rfl))
        · exact hequals (congrArg some (hfirst' rfl))
      rw [OptionParser.ungrouped, OptionParser.group_eq, hletters]
      · dsimp only [Scanner.settled]
        rw [if_neg hplain]
        rfl
      · exact List.cons_ne_nil _ _
  next_name name rest hname hequals := by
    have hnext : scanner.next (scanner.start (OptionParser.named name :: rest)) = _ :=
      Scanner.next_name rest hname hequals
    rw [hnext]
    exact ⟨rfl, Scanner.alike rfl⟩
  value_next name value rest hname hequals := by
    have hnext : scanner.next (scanner.start (OptionParser.named name :: value :: rest)) = _ :=
      Scanner.next_name (value :: rest) hname hequals
    rw [hnext]
    exact ⟨rfl, Scanner.alike rfl⟩

end CmStream.CommandLine
