import CmStream.Decompression

/-!
# Progress

What decompressing a stream reports on its way: what was found, what every call of the
decompressor comes to, and, where every instruction is asked for, the registers before each of
them. Nothing is reported any more once an error has been met.
-/

namespace CmStream

/-- Something to report. -/
inductive Event where
  | imageFound (offset padding : Nat)
  | imageLoaded (paragraphs entry : Word)
  | callBegun (offset : Nat) (compressedLength uncompressedLength control : Word)
  /-- The registers before an instruction. -/
  | instruction (registers : Registers)
  | halted (steps : Nat)
  | stopped (stop : Stop)
  /-- The registers after a call. -/
  | callEnded (registers : Registers)
  | finished (length : Nat)
  deriving DecidableEq, Repr

namespace Event

def text : Event → String
  | imageFound offset padding =>
    "decompressor image at offset " ++ toString offset ++ " after " ++ toString padding
      ++ " bytes of padding"
  | imageLoaded paragraphs entry =>
    "decompressor: " ++ toString paragraphs.toNat ++ " paragraphs, entry "
      ++ Text.markedHex 4 entry.toNat
  | callBegun offset compressedLength uncompressedLength control =>
    "block at offset " ++ toString offset ++ ": compressed " ++ toString compressedLength.toNat
      ++ " uncompressed " ++ toString uncompressedLength.toNat ++ " control "
      ++ Text.markedHex 4 control.toNat
  | instruction registers => registers.codePointer.text ++ " " ++ registers.text
  | halted steps => "halted after " ++ toString steps ++ " instructions"
  | stopped stop => "stopped: " ++ stop.message
  | callEnded registers => registers.text
  | finished length => "decompressed " ++ toString length ++ " bytes"

end Event

namespace Progress

/-- What parsing a stream reports. -/
def ofParsing (bytes : List Byte) : List Event :=
  match Container.readFront bytes with
  | .ok front => [.imageFound front.imageReader.position front.padding]
  | .error _ => []

/-- The instructions of a call. -/
def ofInstructions (limit : Nat) (s : Sandbox) (block : Block) (header : BlockHeader) :
    List Event :=
  match s.prepare block header with
  | (.ok (), m) => (m.trace limit).map .instruction
  | (.error _, _) => []

def ofEnding : Except Stop Nat → Event
  | .ok steps => .halted steps
  | .error stop => .stopped stop

/-- What the calls on some blocks report, with every instruction or without. The blocks before
them have given `produced` bytes. -/
def ofBlocks (traced : Bool) (limit : Nat) : (produced : Nat) → Sandbox → List Block → List Event
  | produced, _, [] => [.finished produced]
  | produced, s, block :: rest =>
    match block.header with
    | .error _ => []
    | .ok header =>
      let instructions := if traced then ofInstructions limit s block header else []
      let (ending, after) := s.execute limit block header
      let registers := after.machine.registers
      let reported :=
        .callBegun block.offset block.compressedLength block.uncompressedLength header.control
          :: (instructions ++ [ofEnding ending, .callEnded registers])
      match (CallResult.ofEnding ending registers).check block with
      | .error _ => reported
      | .ok () =>
        reported ++ ofBlocks traced limit (produced + block.uncompressedLength.toNat) after rest

/-- What decompressing a stream reports behind what parsing it reports. -/
def ofContainer (traced : Bool) (limit : Nat) (container : Container) : List Event :=
  .imageLoaded container.image.paragraphs container.image.entry ::
    match Sandbox.load container.image with
    | .error _ => []
    | .ok sandbox => ofBlocks traced limit 0 sandbox container.blocks

/-- What decompressing a stream reports, with every instruction or without. -/
def ofDecompression (traced : Bool) (limit : Nat) (bytes : List Byte) : List Event :=
  ofParsing bytes ++
    match Container.parse bytes with
    | .error _ => []
    | .ok container => ofContainer traced limit container

end Progress

end CmStream
