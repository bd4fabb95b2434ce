import CmStream.CommandLine.Program

/-!
# The command

Carries the session of the arguments out on the files of the system.
-/

namespace CmStream.CommandLine

/-- The reason that the system gives for a failure, with its number. -/
def FileError.ofSystem : IO.Error → FileError
  | .alreadyExists _ number reason | .otherError number reason | .resourceBusy number reason
  | .resourceVanished number reason | .unsupportedOperation number reason
  | .hardwareFault number reason | .unsatisfiedConstraints number reason
  | .illegalOperation number reason | .protocolError number reason | .timeExpired number reason
  | .interrupted _ number reason | .noFileOrDirectory _ number reason
  | .invalidArgument _ number reason | .permissionDenied _ number reason
  | .resourceExhausted _ number reason | .inappropriateType _ number reason
  | .noSuchThing _ number reason => ⟨reason, number.toNat⟩
  | .unexpectedEof => ⟨"Unexpected end of file", 0⟩
  | .userError reason => ⟨reason, 0⟩

namespace Session

def readFile (path : SystemText) : IO (Except FileError (List Byte)) := do
  match ← (do (← IO.FS.Handle.mk path.shown .read).readBinToEnd : IO ByteArray).toBaseIO with
  | .ok bytes => return .ok (bytes.toList.map (·.toBitVec))
  | .error error => return .error (.ofSystem error)

def createFile (path : SystemText) : IO (Except FileError IO.FS.Handle) := do
  match ← (IO.FS.Handle.mk path.shown .write).toBaseIO with
  | .ok handle => return .ok handle
  | .error error => return .error (.ofSystem error)

def writeFile (handle : IO.FS.Handle) (contents : List Byte) : IO (Except FileError Unit) := do
  let bytes : ByteArray := ⟨(contents.map UInt8.ofBitVec).toArray⟩
  match ← (do handle.write bytes; handle.flush : IO Unit).toBaseIO with
  | .ok () => return .ok ()
  | .error error => return .error (.ofSystem error)

/-- Carries a session out on the files of the system. -/
def perform : Session IO.FS.Handle → IO (Option Report)
  | done report => return some report
  | unfinished => return none
  | read path next => do perform (next (← readFile path))
  | create path next => do perform (next (← createFile path))
  | write handle contents next => do perform (next (← writeFile handle contents))

end Session

/-- How often the patience of one step is doubled; the attempts are made one after the other. -/
def doublings : List Nat := List.range' 20 64

end CmStream.CommandLine

open CmStream.CommandLine in
def main (arguments : List String) : IO UInt32 := do
  for count in doublings do
    match ← (Program.session (1 <<< count) arguments).perform with
    | some report =>
      (← IO.getStderr).putStr report.errorText
      (← IO.getStdout).putStr report.outputText
      return UInt32.ofNat report.status
    | none => continue
  return UInt32.ofNat Report.failedStatus
