import CmStream.CommandLine.OptionParser

/-!
# Options

What the arguments ask for, setting by setting. The first problem ends it, and then nothing of what
has been asked for before counts.
-/

namespace CmStream.CommandLine

/-- What one argument asks for. -/
inductive Setting where
  | list
  | verbose
  | help
  | maxSteps (limit : Nat)
  | path (path : SystemText)
  deriving DecidableEq, Repr

namespace Setting

/-- What an argument asks for by itself. -/
def ofArgument? : Argument → Option Setting
  | .letter letter =>
    if letter = 'l' then some list
    else if letter = 'v' then some verbose
    else if letter = 'h' then some help
    else none
  | .name name =>
    if name = "list" then some list
    else if name = "verbose" then some verbose
    else if name = "help" then some help
    else none
  | .text text => some (path text)

end Setting

/-- What the arguments ask for. -/
structure Options where
  list : Bool
  help : Bool
  verbosity : Nat
  maxSteps : Option Nat
  paths : List SystemText
  deriving DecidableEq, Repr

namespace Options

def initial : Options := ⟨false, false, 0, none, []⟩

/-- The highest verbosity; more requests for it change nothing. -/
def maxVerbosity : Nat := 255

def apply (o : Options) : Setting → Options
  | .list => { o with list := true }
  | .verbose => { o with verbosity := min (o.verbosity + 1) maxVerbosity }
  | .help => { o with help := true }
  | .maxSteps limit => { o with maxSteps := some limit }
  | .path path => { o with paths := o.paths ++ [path] }

/-- The name of the option that limits the steps of a block. -/
def maxStepsName : String := "max-steps"

/-- The numbers of steps that can be asked for lie below this: they have 64 bits. -/
def stepsBound : Nat := UInt64.size

end Options

namespace OptionParser

variable (p : OptionParser)

/-- Reads a number of steps. -/
def readLimit (value : SystemText) : Except p.Error Nat :=
  match value.text? with
  | none => .error (p.garbled value)
  | some text => (Text.readNumeral Options.stepsBound text).mapError (p.unreadable text)

/-- What an argument that has been handed out asks for, with its value where it needs one. -/
def setting (argument : Argument) (s : p.State) : Except p.Error Setting × p.State :=
  if argument = .name Options.maxStepsName then
    match p.value s with
    | (.error error, after) => (.error error, after)
    | (.ok value, after) => ((p.readLimit value).map .maxSteps, after)
  else
    match Setting.ofArgument? argument with
    | some setting => (.ok setting, s)
    | none => (.error (p.unexpected argument), s)

theorem left_setting {argument : Argument} {s after : p.State} {setting : Setting}
    (h : p.setting argument s = (.ok setting, after)) : p.left after ≤ p.left s := by
  unfold OptionParser.setting at h
  split at h
  case isTrue =>
    split at h
    case h_1 => cases h
    case h_2 value next hvalue =>
      obtain ⟨-, rfl⟩ := Prod.mk.inj h
      exact p.left_value hvalue
  case isFalse =>
    split at h <;> cases h
    exact Nat.le_refl _

/-- All that is asked for from a state on, up to the first problem. -/
def settings (s : p.State) : List Setting × Option p.Error :=
  match _ : p.next s with
  | (.error error, _) => ([], some error)
  | (.ok none, _) => ([], none)
  | (.ok (some argument), behind) =>
    match _ : p.setting argument behind with
    | (.error error, _) => ([], some error)
    | (.ok setting, after) =>
      let (more, error) := settings after
      (setting :: more, error)
termination_by p.left s
decreasing_by exact Nat.lt_of_le_of_lt (p.left_setting ‹_›) (p.left_next ‹_›)

def parse (arguments : List SystemText) : Except p.Error Options :=
  match p.settings (p.start arguments) with
  | (settings, none) => .ok (settings.foldl Options.apply Options.initial)
  | (_, some error) => .error error

end OptionParser

end CmStream.CommandLine
