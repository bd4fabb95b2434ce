import CmStream.Checked.Container
import CmStream.Checked.Execution
import CmStream.Decompression

/-!
# Decompressing with everything checked

The whole way from the bytes of a stream to those of its output, with every operation along it that
is not defined everywhere: reading the stream twice, laying out memory, calling the decompressor on
each block, and taking the output from its region.
-/

namespace CmStream

namespace Checked

open Sandbox (codeRegion inputRegion outputRegion segmentSize stackReserve outputUnit)

/-- A sandbox with the numbers under which its regions have been added. -/
structure Harness where
  machine : Machine
  input : Nat
  output : Nat
  entry : Word
  deriving DecidableEq, Repr

namespace Harness

/-! ## Layout -/

/-- The three regions with their contents, mapped one behind the other. -/
def load (image : Image) : Attempt SetupError Harness := do
  let length := image.code.length
  let available ← Number.subtract segmentSize stackReserve
  if available < length then throw (.capacity length available)
  let (code, m) ← allocate PagedMemory.empty segmentSize
  let (input, m) ← allocate m segmentSize
  let (output, m) ← allocate m segmentSize
  let m ← copyInto m code 0 1 [Sandbox.haltingByte]
  let stop ← Number.add 64 stackReserve length
  let m ← copyInto m code stackReserve stop image.code
  let m ← (map m (Sandbox.regionBase codeRegion) code Permissions.all).adapt .layout
  let m ← (map m (Sandbox.regionBase inputRegion) input Permissions.all).adapt .layout
  let m ← (map m (Sandbox.regionBase outputRegion) output Permissions.all).adapt .layout
  return ⟨⟨Registers.initial, m⟩, input, output, image.entry⟩

/-! ## Calls -/

/-- The number of units of output, rounded up. -/
def units (uncompressedLength : Word) : Option Nat := do
  let sum ← Number.add 32 uncompressedLength.toNat outputUnit
  let short ← Number.subtract sum 1
  Number.divide short outputUnit

/-- The segment that begins at a linear address. -/
def segmentAt (address : Nat) : Option Word := do
  let paragraphs ← Number.shiftRight 32 address 4
  return BitVec.ofNat 16 paragraphs

/-- The registers with which a decompressor begins. -/
def entryRegisters (entry control uncompressedLength : Word) : Option Registers := do
  let foot ← Number.add 64 (Sandbox.regionBase codeRegion) stackReserve
  let cs ← segmentAt foot
  let ds ← segmentAt (Sandbox.regionBase inputRegion)
  let es ← segmentAt (Sandbox.regionBase outputRegion)
  let units ← units uncompressedLength
  let ss ← segmentAt (Sandbox.regionBase codeRegion)
  return { Registers.initial with
    cs := cs
    ip := entry
    ds := ds
    si := BitVec.ofNat 16 BlockHeader.length
    es := es
    ax := control
    bx := 1
    cx := BitVec.ofNat 16 units
    ss := ss
    sp := Sandbox.returnSlot }

/-- Runs the decompressor on a block; the machine keeps what it has come to. -/
def execute (limit : Nat) (h : Harness) (block : Block) (header : BlockHeader) :
    Option (Except Stop Nat × Harness) := do
  let memory ← copyInto h.machine.memory h.input 0 block.payload.length block.payload
  let r ← entryRegisters h.entry header.control block.uncompressedLength
  match ← runEffects (Sandbox.enter r) ⟨h.machine.registers, memory⟩ with
  | (.ok (), m) =>
    let (ending, after) ← Checked.run limit m
    return (ending, { h with machine := after })
  | (.error cause, m) => return (.error (.gaveUp r.codePointer cause), { h with machine := m })

def call (limit : Nat) (h : Harness) (block : Block) :
    Attempt FormatError (CallResult × Harness) := do
  let header ← readHeader block
  let (ending, after) ← execute limit h block header
  return (CallResult.ofEnding ending after.machine.registers, after)

end Harness

/-- Does the result keep to what the block declares? -/
def check (result : CallResult) (block : Block) : Attempt ExecutionError Unit := do
  let compressed := block.compressedLength
  if result.stop.isSome || result.halt ≠ Sandbox.expectedHalt then
    throw (.unexpectedHalt result.halt result.stop)
  if result.carry then throw .decompressionFailed
  let ahead ← Number.add 32 compressed.toNat 1
  if result.consumed ≠ compressed ∧ result.consumed.toNat ≠ ahead then
    throw (.lengthMismatch .consumed compressed result.consumed)
  if result.produced ≠ block.uncompressedLength then
    throw (.lengthMismatch .produced block.uncompressedLength result.produced)

/-- The output of the blocks from a cursor on. -/
def decompressBlocks (limit : Nat) : (turns : Nat) → Harness → Cursor →
    Attempt Error (List Byte)
  | 0, _, _ => undefined
  | turns + 1, h, c => do
    match ← (readBlock c).adapt .format with
    | (none, _) => return []
    | (some block, c) =>
      let (result, h) ← (h.call limit block).adapt .format
      (check result block).adapt (.execution block.offset)
      let output ← firstBytes h.machine.memory h.output block.uncompressedLength.toNat
      let rest ← decompressBlocks limit turns h c
      return output ++ rest

def decompress (limit : Nat) (bytes : List Byte) : Attempt Error (List Byte) := do
  let parsed ← (parse bytes).adapt .format
  let harness ← (Harness.load parsed.image).adapt .setup
  decompressBlocks limit (bytes.length + 1) harness parsed.start

end Checked

end CmStream
