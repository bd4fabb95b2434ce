import CmStream.CommandLine.Program
import CmStream.Text.Reading

/-!
# How much is to be reported

Arguments ask for more to be reported once, several times or not at all, in any place. What else
they ask for says what the program is to do. Arguments of the common forms spell their settings out,
so that requests for more can be put in and taken out of them.
-/

namespace CmStream.CommandLine

namespace Setting

/-- Arguments of the common forms, and the settings that they stand for in order: a path, a group of
letters, the name of an option, and the limit with its value. -/
inductive Spelled : List SystemText → List Setting → Prop
  | nil : Spelled [] []
  | path {text : SystemText} {words : List SystemText} {settings : List Setting}
      (plain : text = [SystemText.hyphen] ∨ text.head? ≠ some SystemText.hyphen)
      (later : Spelled words settings) : Spelled (text :: words) (.path text :: settings)
  | letters {letters : List Char} {meant : List Setting} {words : List SystemText}
      {settings : List Setting} (some_letter : letters ≠ [])
      (known : letters.map (fun letter => ofArgument? (.letter letter)) = meant.map some)
      (later : Spelled words settings) :
      Spelled (OptionParser.group letters :: words) (meant ++ settings)
  | name {name : String} {setting : Setting} {words : List SystemText} {settings : List Setting}
      (known : ofArgument? (.name name) = some setting) (later : Spelled words settings) :
      Spelled (OptionParser.named name :: words) (setting :: settings)
  | maxSteps {value : String} {limit : Nat} {words : List SystemText} {settings : List Setting}
      (read : Text.readNumeral Options.stepsBound value = .ok limit)
      (later : Spelled words settings) :
      Spelled (OptionParser.named Options.maxStepsName :: .encode value :: words)
        (.maxSteps limit :: settings)

/-- What settings ask for, apart from more to be reported. -/
def purpose (settings : List Setting) : List Setting := settings.filter (· ≠ .verbose)

end Setting

namespace OptionParser

variable (p : OptionParser)

/-- How often arguments ask for more to be reported. -/
def requests (arguments : List SystemText) : Nat :=
  (p.settings (p.start arguments)).1.count .verbose

/-- The arguments differ in how much is to be reported, and in nothing else: they ask for the same
in the same order, and come to the same problem if they come to one. -/
structure AgreeButVerbosity (arguments others : List SystemText) : Prop where
  purpose : Setting.purpose (p.settings (p.start arguments)).1
    = Setting.purpose (p.settings (p.start others)).1
  error : (p.settings (p.start arguments)).2 = (p.settings (p.start others)).2

end OptionParser

/-- Two reports differ in the lines of progress on standard error only. The complaints behind them
are the same text, and so is all of standard output. -/
structure Report.SameButProgress (report other : Report) (shown otherShown : List String) :
    Prop where
  status : other.status = report.status
  output : other.outputText = report.outputText
  error : ∃ progress otherProgress complaints,
    report.errorText = progress ++ complaints ∧ other.errorText = otherProgress ++ complaints
      ∧ Text.lines progress = shown ∧ Text.lines otherProgress = otherShown

namespace Program

/-- The session of some arguments ends like this, if there is patience enough. -/
def Gives (p : OptionParser) (arguments : List SystemText) (d : Directory) (report : Report)
    (after : Directory) : Prop :=
  ∃ patience, (sessionWith p patience arguments).run d = (some report, after)

end Program

end CmStream.CommandLine
