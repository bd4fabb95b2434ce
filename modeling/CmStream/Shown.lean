import CmStream.Listing
import CmStream.Progress
import CmStream.Text.Reading
import Mathlib.Data.List.Forall2

/-!
# What lines show

A listing and the events of a decompression are lines of text. What a reader can take from a line is
said by its words and by the numbers that are read from them, whatever the line has been put
together from.
-/

namespace CmStream

namespace Listing

/-- The line is a row of the table, with the offset of a block, its lengths and its control word. -/
def ShowsBlock (block : Block) (line : String) : Prop :=
  ∃ header offset compressed uncompressed control, block.header = .ok header
    ∧ Text.words line = [offset, compressed, uncompressed, control]
    ∧ Text.decimal? offset = some block.offset
    ∧ Text.decimal? compressed = some block.compressedLength.toNat
    ∧ Text.decimal? uncompressed = some block.uncompressedLength.toNat
    ∧ Text.marked? control = some header.control.toNat

def ShowsImage (image : Image) (line : String) : Prop :=
  ∃ offset paragraphs entry,
    Text.words line
      = ["decompressor", "at", "offset", offset, paragraphs, "paragraphs", "entry", entry]
    ∧ Text.decimal? offset = some image.offset
    ∧ Text.decimal? paragraphs = some image.paragraphs.toNat
    ∧ Text.marked? entry = some image.entry.toNat

def ShowsTotal (length : Nat) (line : String) : Prop :=
  ∃ total, Text.words line = ["total", "uncompressed", "length", total]
    ∧ Text.decimal? total = some length

/-- The lines are a whole listing: the names of the columns, one row for each block in order, the
image, and the length of the output. -/
def Shows (container : Container) (length : Nat) (lines : List String) : Prop :=
  ∃ head table image total, lines = head :: (table ++ [image, total])
    ∧ Text.words head = ["offset", "compressed", "uncompressed", "control"]
    ∧ List.Forall₂ ShowsBlock container.blocks table
    ∧ ShowsImage container.image image
    ∧ ShowsTotal length total

end Listing

namespace Registers

/-- Takes words two by two: what has a value, and the value. -/
def pairs : List String → List (String × String)
  | name :: value :: rest => (name, value) :: pairs rest
  | _ => []

/-- Reads all registers by their names, four hexadecimal digits each. -/
def ofWords? (words : List String) : Option Registers := do
  let value (name : String) : Option Word := ((pairs words).lookup name).bind Text.fourDigits?
  return {
    ax := ← value "ax", bx := ← value "bx", cx := ← value "cx", dx := ← value "dx"
    si := ← value "si", di := ← value "di", bp := ← value "bp", sp := ← value "sp"
    ip := ← value "ip", cs := ← value "cs", ds := ← value "ds", es := ← value "es"
    ss := ← value "ss", flags := ← value "flags" }

end Registers

/-- The line says why a machine has stopped, and where or after how many steps. -/
def Stop.Shown : Stop → String → Prop
  | .gaveUp place cause, line => ∃ segment offset,
    Text.words line = "stopped" :: (Text.words cause.message ++ ["at", segment, offset])
      ∧ Text.fourDigits? segment = some place.segment
      ∧ Text.fourDigits? offset = some place.offset
  | .stepLimit steps, line => ∃ count,
    Text.words line
      = ["stopped", "stopped", "after", count, "instructions", "without", "halting"]
      ∧ Text.decimal? count = some steps

/-- The line says what has happened, with all numbers and registers. -/
def Event.Shown : Event → String → Prop
  | .imageFound offset padding, line => ∃ place count,
    Text.words line
      = ["decompressor", "image", "at", "offset", place, "after", count, "bytes", "of", "padding"]
      ∧ Text.decimal? place = some offset ∧ Text.decimal? count = some padding
  | .imageLoaded paragraphs entry, line => ∃ count place,
    Text.words line = ["decompressor", count, "paragraphs", "entry", place]
      ∧ Text.decimal? count = some paragraphs.toNat ∧ Text.marked? place = some entry.toNat
  | .callBegun offset compressedLength uncompressedLength control, line =>
    ∃ place compressed uncompressed mark,
      Text.words line = ["block", "at", "offset", place, "compressed", compressed, "uncompressed",
        uncompressed, "control", mark]
      ∧ Text.decimal? place = some offset
      ∧ Text.decimal? compressed = some compressedLength.toNat
      ∧ Text.decimal? uncompressed = some uncompressedLength.toNat
      ∧ Text.marked? mark = some control.toNat
  | .instruction registers, line => ∃ segment offset named,
    Text.words line = segment :: offset :: named
      ∧ Text.fourDigits? segment = some registers.cs
      ∧ Text.fourDigits? offset = some registers.ip
      ∧ Registers.ofWords? named = some registers
  | .halted steps, line => ∃ count,
    Text.words line = ["halted", "after", count, "instructions"]
      ∧ Text.decimal? count = some steps
  | .stopped stop, line => stop.Shown line
  | .callEnded registers, line => Registers.ofWords? (Text.words line) = some registers
  | .finished length, line => ∃ count,
    Text.words line = ["decompressed", count, "bytes"] ∧ Text.decimal? count = some length

end CmStream
