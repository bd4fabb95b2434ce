import CmStream.CommandLine.Options
import CmStream.CommandLine.Scanner
import CmStream.CommandLine.Session
import CmStream.Listing

/-!
# The program

From the arguments to a session. Arguments that cannot be understood come before a request for
help, and that before everything else. The input is read whole, and the output is written only
once all of it is there.
-/

namespace CmStream.CommandLine

/-- What the program is to do. -/
inductive Request where
  | help
  | list (input : SystemText)
  | decompress (input output : SystemText)
  /-- There are too few or too many paths for a listing, or for decompressing. -/
  | unclear (listing : Bool)
  deriving DecidableEq, Repr

def Options.request (o : Options) : Request :=
  if o.help then .help
  else
    match o.list, o.paths with
    | true, [input] => .list input
    | false, [input, output] => .decompress input output
    | listing, _ => .unclear listing

namespace Program

def usage : List String :=
  ["Usage: cmunpack [OPTION]... INPUT OUTPUT",
    "       cmunpack --list INPUT",
    "Decompress a CM stream by running its embedded decompressor.",
    "",
    "Options:",
    "    -l, --list          show the block table instead of decompressing",
    "        --max-steps N   give up on a block after N instructions",
    "    -v, --verbose       log progress to stderr; repeat to trace instructions",
    "    -h, --help          show this help"]

/-- What is said below the usage where the paths do not fit. -/
def needed (listing : Bool) : String :=
  if listing then "Need an INPUT argument" else "Need INPUT and OUTPUT arguments"

/-- Names the file that a complaint is about. -/
def about (path : SystemText) (complaint : String) : String := path.shown ++ ": " ++ complaint

/-- The verbosity from which on progress is reported. -/
def progressVerbosity : Nat := 1

/-- The verbosity from which on every instruction is reported. -/
def traceVerbosity : Nat := 2

/-- The report on a file that is listed. -/
def list (verbosity : Nat) (input : SystemText) (bytes : List Byte) : Report :=
  let log := if progressVerbosity ≤ verbosity then Progress.ofParsing bytes else []
  match Container.parse bytes with
  | .error error => .failure [] log [about input error.message]
  | .ok container =>
    match Listing.lines container with
    | (lines, none) => .success lines log
    | (lines, some error) => .failure lines log [about input error.message]

/-- What decompressing reports, if anything is to be reported. -/
def log (verbosity limit : Nat) (bytes : List Byte) : List Event :=
  if progressVerbosity ≤ verbosity then
    Progress.ofDecompression (traceVerbosity ≤ verbosity) limit bytes
  else []

/-- Decompresses a file with the limit that was asked for, or else within some patience. -/
def decompress? (patience : Nat) (maxSteps : Option Nat) (bytes : List Byte) :
    Option (Except Error (List Byte)) :=
  match maxSteps with
  | some limit => some (decompress limit bytes)
  | none => decompressUnlimited? patience bytes

variable {Handle : Type}

/-- Decompresses from file to file. The output is created once all of it is there. -/
def decompression (patience : Nat) (o : Options) (input output : SystemText) : Session Handle :=
  .read input fun
    | .error error => .done (.failure [] [] [about input error.message])
    | .ok bytes =>
      let log := log o.verbosity (o.maxSteps.getD patience) bytes
      match decompress? patience o.maxSteps bytes with
      | none => .unfinished
      | some (.error error) => .done (.failure [] log [about input error.message])
      | some (.ok contents) =>
        .create output fun
          | .error error => .done (.failure [] log [about output error.message])
          | .ok handle =>
            .write handle contents fun
              | .ok () => .done (.success [] log)
              | .error error => .done (.failure [] log [about output error.message])

/-- The session of some options. -/
def ofOptions (patience : Nat) (o : Options) : Session Handle :=
  match o.request with
  | .help => .done (.success usage [])
  | .unclear listing => .done (.failure [] [] (usage ++ ["", needed listing]))
  | .list input =>
    .read input fun
      | .ok bytes => .done (list o.verbosity input bytes)
      | .error error => .done (.failure [] [] [about input error.message])
  | .decompress input output => decompression patience o input output

/-- The session of some arguments as a parser takes them apart. A block without a limit has as many
steps as there is patience. -/
def sessionWith (p : OptionParser) (patience : Nat) (arguments : List SystemText) :
    Session Handle :=
  match p.parse arguments with
  | .ok options => ofOptions patience options
  | .error error => .done (.failure [] [] [p.message error])

/-- The session of the command with arguments that are texts. -/
def session (patience : Nat) (arguments : List String) : Session Handle :=
  sessionWith scanner patience (arguments.map .encode)

end Program

end CmStream.CommandLine
