import CmStream.Container.Parse

/-!
# The listing of a stream

A table of the blocks, and below it where the image is and how long the output will be. Nothing
is run. The table ends at a block whose header cannot be read.
-/

namespace CmStream

namespace Listing

/-- A block in the table. -/
structure Row where
  offset : Nat
  compressedLength : Word
  uncompressedLength : Word
  control : Word
  deriving DecidableEq, Repr

/-- The rows up to the first block whose header cannot be read, and why it cannot. -/
def rows : List Block → List Row × Option FormatError
  | [] => ([], none)
  | block :: rest =>
    match block.header with
    | .error error => ([], some error)
    | .ok header =>
      let (more, error) := rows rest
      (⟨block.offset, block.compressedLength, block.uncompressedLength, header.control⟩ :: more,
        error)

/-- The line of four columns. -/
def line (offset compressed uncompressed control : String) : String :=
  String.intercalate " " [Text.rightAligned 8 offset, Text.rightAligned 10 compressed,
    Text.rightAligned 12 uncompressed, Text.rightAligned 7 control]

def headline : String := line "offset" "compressed" "uncompressed" "control"

def Row.text (row : Row) : String :=
  line (toString row.offset) (toString row.compressedLength.toNat)
    (toString row.uncompressedLength.toNat) (Text.markedHex 5 row.control.toNat)

/-- The length of the output that some rows declare. -/
def total : List Row → Nat
  | [] => 0
  | row :: rest => row.uncompressedLength.toNat + total rest

def imageLine (image : Image) : String :=
  "decompressor at offset " ++ toString image.offset ++ ": " ++ toString image.paragraphs.toNat
    ++ " paragraphs, entry " ++ Text.markedHex 4 image.entry.toNat

def totalLine (rows : List Row) : String :=
  "total uncompressed length " ++ toString (total rows)

/-- All lines of a listing, as far as it comes, and why it ends early if it does. -/
def lines (container : Container) : List String × Option FormatError :=
  let (rows, error) := rows container.blocks
  let table := headline :: rows.map Row.text
  match error with
  | some error => (table, some error)
  | none => (table ++ [imageLine container.image, totalLine rows], none)

end Listing

end CmStream
