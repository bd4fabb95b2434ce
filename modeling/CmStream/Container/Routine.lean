import CmStream.Container.Encode

/-!
# Two families of decompressors

Routines that are known to keep to the calling convention, with the streams that they
decompress: one copies its input, the other expands pairs of a count and a byte.
-/

namespace CmStream

namespace Routine

/-- Copies as many bytes as the control word says: `mov cx, ax`, `cld`, `rep movsb`, `clc`,
`retf`. -/
def copy : List Byte := [0x89, 0xc1, 0xfc, 0xf3, 0xa4, 0xf8, 0xcb]

/-- Copies like `copy` and then steps over one more byte of input: `inc si` before `clc`. -/
def copyReadingAhead : List Byte := [0x89, 0xc1, 0xfc, 0xf3, 0xa4, 0x46, 0xf8, 0xcb]

/-- Expands as many pairs of a count and a byte as the control word says. A loop over the pairs
keeps its own count on the stack (`push cx`, `pop cx`, `loop`) while `lodsw` and `rep stosb`
expand one pair; `jcxz` skips it where there is no pair. -/
def expandRuns : List Byte :=
  [0x89, 0xc1, 0xfc, 0xe3, 0x0d, 0x51, 0xad, 0x88, 0xc1, 0x30, 0xed, 0x88, 0xe0, 0xf3, 0xaa,
    0x59, 0xe2, 0xf1, 0xf8, 0xcb]

end Routine

/-- The block that a copying routine turns into the given data. -/
def copiedBlock (data : List Byte) : Word × List Byte :=
  let length := BitVec.ofNat 16 data.length
  (length, Block.payloadOf length data)

/-- A count and the byte to be repeated. -/
abbrev Run := Byte × Byte

namespace Run

def expand (run : Run) : List Byte := List.replicate run.1.toNat run.2

def encode (run : Run) : List Byte := [run.1, run.2]

end Run

/-- The block that `Routine.expandRuns` turns into the expansion of the given runs. -/
def runsBlock (runs : List Run) : Word × List Byte :=
  (BitVec.ofNat 16 (runs.flatMap Run.expand).length,
    Block.payloadOf (BitVec.ofNat 16 runs.length) (runs.flatMap Run.encode))

end CmStream
