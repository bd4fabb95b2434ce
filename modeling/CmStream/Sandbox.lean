import CmStream.Container.Parse
import CmStream.Machine.Step

/-!
# The sandbox

A decompressor runs in a machine of three segments and can reach nothing else. The first holds
a halting instruction at its foot, the stack below offset 256, and from there on the image;
the second holds the payload of a block, and the third receives the decompressed bytes.

The decompressor is called far, with the control word, the constant one and the number of
512-byte units of output in `ax`, `bx` and `cx`, its input at `ds:si` behind the header of the
payload, and its output at `es:di`. It is to return far to the halting instruction with the
carry clear, its indices past what it has consumed and produced. Memory keeps from one block to
the next what it held.
-/

namespace CmStream

/-- A machine for an image that cannot be set up. -/
inductive SetupError where
  /-- The image is longer than the space for code. -/
  | capacity (length available : Nat)
  | layout (error : MapError)
  deriving DecidableEq, Repr

namespace SetupError

def message : SetupError → String
  | capacity length available =>
    "decompressor is " ++ toString length ++ " bytes long, but only " ++ toString available
      ++ " bytes of code space are available"
  | layout error => "memory layout: " ++ error.message

end SetupError

/-- Which length a decompressor got wrong. -/
inductive Measure where
  | consumed
  | produced
  deriving DecidableEq, Repr

/-- A decompressor that ran and did not do what its block declares. -/
inductive ExecutionError where
  /-- It did not halt where it should have, or not at all. -/
  | unexpectedHalt (halt : FarPointer) (stop : Option Stop)
  /-- It came back with the carry set. -/
  | decompressionFailed
  | lengthMismatch (measure : Measure) (expected actual : Word)
  deriving DecidableEq, Repr

/-- What is left of a call: why the machine stopped if it did not halt, where it then was, and
what the decompressor reports. -/
structure CallResult where
  stop : Option Stop
  halt : FarPointer
  carry : Bool
  consumed : Word
  produced : Word
  deriving DecidableEq, Repr

structure Sandbox where
  machine : Machine
  /-- The entry point, counted from the beginning of the image. -/
  entry : Word
  deriving DecidableEq, Repr

namespace Sandbox

/-! ## Layout -/

/-- The length of each of the three regions. -/
def segmentSize : Nat := 0x10000

/-- The bytes at the foot of the first region that the image leaves to the stack. -/
def stackReserve : Nat := 0x100

/-- The longest image that fits. -/
def codeSpace : Nat := segmentSize - stackReserve

def codeRegion : Nat := 0

def inputRegion : Nat := 1

def outputRegion : Nat := 2

/-- The linear address at which a region is mapped. -/
def regionBase (index : Nat) : Nat := index * segmentSize

/-- The segment that begins at a linear address. -/
def segmentAt (address : Nat) : Word := BitVec.ofNat 16 (address / paragraph)

/-- The halting instruction. -/
def haltingByte : Byte := 0xf4

/-- The offset at which a decompressor finds its return address on the stack. -/
def returnSlot : Word := 0x00fc

/-- Where a decompressor that comes back halts: just behind the halting instruction. -/
def expectedHalt : FarPointer := ⟨0, 1⟩

/-- The number of bytes in a unit of output. -/
def outputUnit : Nat := 512

/-- The three regions with their contents, all of them readable, writable and executable. -/
def layOut (code : List Byte) : Except MapError PagedMemory := do
  let m := PagedMemory.empty
  let m := ((m.allocate segmentSize).allocate segmentSize).allocate segmentSize
  let m := (m.poke codeRegion 0 [haltingByte]).poke codeRegion stackReserve code
  let m ← m.map (regionBase codeRegion) codeRegion Permissions.all
  let m ← m.map (regionBase inputRegion) inputRegion Permissions.all
  m.map (regionBase outputRegion) outputRegion Permissions.all

/-- A sandbox with an image in it. -/
def load (image : Image) : Except SetupError Sandbox :=
  if codeSpace < image.code.length then .error (.capacity image.code.length codeSpace)
  else
    match layOut image.code with
    | .ok memory => .ok ⟨⟨Registers.initial, memory⟩, image.entry⟩
    | .error error => .error (.layout error)

/-! ## Calls -/

/-- The registers with which a decompressor begins. -/
def entryRegisters (entry control uncompressedLength : Word) : Registers :=
  { Registers.initial with
    cs := segmentAt stackReserve
    ip := entry
    ds := segmentAt (regionBase inputRegion)
    si := BitVec.ofNat 16 BlockHeader.length
    es := segmentAt (regionBase outputRegion)
    ax := control
    bx := 1
    cx := BitVec.ofNat 16 ((uncompressedLength.toNat + outputUnit - 1) / outputUnit)
    sp := returnSlot }

/-- Sets up the registers and the return address. -/
def enter (r : Registers) : Microprogram Unit := do
  Microprogram.setRegisters r
  Microprogram.storeWord r.stackPointer 0
  Microprogram.storeWord (r.stackPointer.advance 2) 0

/-- The machine at the first instruction of a call, or a stop if it cannot be entered. -/
def prepare (s : Sandbox) (block : Block) (header : BlockHeader) : Except Stop Unit × Machine :=
  let r := entryRegisters s.entry header.control block.uncompressedLength
  let memory := s.machine.memory.poke inputRegion 0 block.payload
  match (enter r).run ⟨s.machine.registers, memory⟩ with
  | (.ok (), m) => (.ok (), m)
  | (.error cause, m) => (.error (.gaveUp r.codePointer cause), m)

/-- Runs the decompressor on a block; says how many steps it took if the machine halted. -/
def execute (limit : Nat) (s : Sandbox) (block : Block) (header : BlockHeader) :
    Except Stop Nat × Sandbox :=
  match s.prepare block header with
  | (.ok (), m) =>
    let (ending, after) := m.run limit
    (ending, ⟨after, s.entry⟩)
  | (.error stop, m) => (.error stop, ⟨m, s.entry⟩)

/-- The first bytes of the output. -/
def output (s : Sandbox) (length : Word) : List Byte :=
  s.machine.memory.peek outputRegion 0 length.toNat

end Sandbox

namespace CallResult

/-- What a machine shows at the end of a run. -/
def ofEnding (ending : Except Stop Nat) (r : Registers) : CallResult :=
  { stop := match ending with
      | .ok _ => none
      | .error stop => some stop
    halt := r.codePointer
    carry := r.flag .carry
    consumed := r.si
    produced := r.di }

/-- Did the decompressor come back, without reporting failure, and are the lengths those that
the block declares? It may have consumed one byte more. -/
def check (result : CallResult) (block : Block) : Except ExecutionError Unit :=
  let compressed := block.compressedLength
  if result.stop.isSome || result.halt ≠ Sandbox.expectedHalt then
    .error (.unexpectedHalt result.halt result.stop)
  else if result.carry then .error .decompressionFailed
  else if result.consumed ≠ compressed ∧ result.consumed.toNat ≠ compressed.toNat + 1 then
    .error (.lengthMismatch .consumed compressed result.consumed)
  else if result.produced ≠ block.uncompressedLength then
    .error (.lengthMismatch .produced block.uncompressedLength result.produced)
  else .ok ()

end CallResult

namespace Sandbox

/-- Runs the decompressor on a block, with the sandbox as it is afterwards. A block whose
header cannot be read is not run. -/
def call (limit : Nat) (s : Sandbox) (block : Block) :
    Except FormatError CallResult × Sandbox :=
  match block.header with
  | .error error => (.error error, s)
  | .ok header =>
    let (ending, after) := s.execute limit block header
    (.ok (CallResult.ofEnding ending after.machine.registers), after)

end Sandbox

namespace ExecutionError

def message : ExecutionError → String
  | unexpectedHalt _ (some stop) => "decompressor did not return: " ++ stop.message
  | unexpectedHalt halt none =>
    "decompressor halted at " ++ halt.text ++ "; expected " ++ Sandbox.expectedHalt.text
  | decompressionFailed => "decompressor reported failure"
  | lengthMismatch .consumed expected actual =>
    "decompressor consumed " ++ toString actual.toNat ++ " bytes; expected "
      ++ toString expected.toNat ++ " or " ++ toString (expected.toNat + 1)
  | lengthMismatch .produced expected actual =>
    "decompressor produced " ++ toString actual.toNat ++ " bytes; expected "
      ++ toString expected.toNat

end ExecutionError

end CmStream
