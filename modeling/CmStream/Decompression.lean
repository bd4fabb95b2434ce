import CmStream.Sandbox

/-!
# Decompressing a stream

A stream is decompressed block by block in one sandbox; what comes out is the concatenation of
what every block leaves in the output region. Either every block keeps to what it declares, or
there is an error and no output.
-/

namespace CmStream

inductive Error where
  | format (error : FormatError)
  | setup (error : SetupError)
  /-- The decompressor misbehaved on the block at an offset. -/
  | execution (offset : Nat) (error : ExecutionError)
  deriving DecidableEq, Repr

/-- A broad classification of errors. -/
inductive ErrorKind where
  | overrun
  | malformed
  | capacity
  | unexpectedHalt
  | decompressionFailed
  | lengthMismatch
  | layout
  deriving DecidableEq, Repr

namespace Error

def message : Error → String
  | format error => error.message
  | setup error => error.message
  | execution offset error => "block at offset " ++ toString offset ++ ": " ++ error.message

def kind : Error → ErrorKind
  | format (.overrun _) => .overrun
  | format _ => .malformed
  | setup (.capacity _ _) => .capacity
  | setup (.layout _) => .layout
  | execution _ (.unexpectedHalt _ _) => .unexpectedHalt
  | execution _ .decompressionFailed => .decompressionFailed
  | execution _ (.lengthMismatch _ _ _) => .lengthMismatch

/-- Was a block cut short by the limit on steps? -/
def isStepLimit : Error → Bool
  | execution _ (.unexpectedHalt _ (some stop)) => stop.isStepLimit
  | _ => false

end Error

namespace Sandbox

/-- The output of some blocks, each of which has `limit` steps. -/
def decompress (limit : Nat) : Sandbox → List Block → Except Error (List Byte)
  | _, [] => .ok []
  | s, block :: rest =>
    match s.call limit block with
    | (.error error, _) => .error (.format error)
    | (.ok result, after) =>
      match result.check block with
      | .error error => .error (.execution block.offset error)
      | .ok () =>
        let output := after.output block.uncompressedLength
        (decompress limit after rest).map (output ++ ·)

end Sandbox

/-- Decompresses a stream; every block has `limit` steps. -/
def decompress (limit : Nat) (bytes : List Byte) : Except Error (List Byte) := do
  let container ← (Container.parse bytes).mapError .format
  let sandbox ← (Sandbox.load container.image).mapError .setup
  sandbox.decompress limit container.blocks

/-- Decompresses a stream without a limit, if every block ends within `patience` steps. -/
def decompressUnlimited? (patience : Nat) (bytes : List Byte) :
    Option (Except Error (List Byte)) :=
  match decompress patience bytes with
  | .ok output => some (.ok output)
  | .error error => if error.isStepLimit then none else some (.error error)

end CmStream
