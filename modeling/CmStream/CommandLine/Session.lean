import CmStream.CommandLine.Directory
import CmStream.Progress

/-!
# Sessions

What the program does as a value: it reads files, writes files, and ends with a report. A session
can be carried out in a directory that is a value, too, and what it may touch can be read off it.
-/

namespace CmStream.CommandLine

/-- What the program leaves behind on the standard streams, and its exit status. -/
structure Report where
  status : Nat
  /-- The lines on standard output. -/
  shown : List String
  /-- The progress, on standard error. -/
  log : List Event
  /-- The lines on standard error behind the progress. -/
  complaints : List String
  deriving DecidableEq, Repr

namespace Report

/-- The exit status of a program that did what it was asked for. -/
def okStatus : Nat := 0

def failedStatus : Nat := 1

def success (shown : List String) (log : List Event) : Report := ⟨okStatus, shown, log, []⟩

def failure (shown : List String) (log : List Event) (complaints : List String) : Report :=
  ⟨failedStatus, shown, log, complaints⟩

/-- Lines as a text, each of them with its end. -/
def text (lines : List String) : String := String.join (lines.map (· ++ "\n"))

def outputText (r : Report) : String := text r.shown

def errorText (r : Report) : String := text (r.log.map Event.text ++ r.complaints)

end Report

/-- A session in which a file that is to be written is held by a handle. -/
inductive Session (Handle : Type) where
  | done (report : Report)
  /-- The program is not done within its patience. -/
  | unfinished
  | read (path : SystemText) (next : Except FileError (List Byte) → Session Handle)
  /-- Makes an empty file, or empties a file, so that it can be written. -/
  | create (path : SystemText) (next : Except FileError Handle → Session Handle)
  | write (handle : Handle) (contents : List Byte) (next : Except FileError Unit → Session Handle)

namespace Session

/-- Carries a session out. There is no report if it is not done within its patience. A file that has
been created can be written. -/
def run : Session Location → Directory → Option Report × Directory
  | done report, d => (some report, d)
  | unfinished, d => (none, d)
  | read path next, d => (next (d.read path)).run d
  | create path next, d =>
    match d.create path with
    | .ok (location, created) => (next (.ok location)).run created
    | .error error => (next (.error error)).run d
  | write location contents next, d => (next (.ok ())).run (d.append location contents)

end Session

end CmStream.CommandLine
