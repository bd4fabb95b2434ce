import CmStream.FarPointer
import CmStream.Machine.Flags

/-!
# Registers

The fourteen words of the register file, and the names by which an instruction refers to them:
general registers as words or as their halves, and segment registers. An instruction encodes
a name as a number.
-/

namespace CmStream

structure Registers where
  ax : Word
  bx : Word
  cx : Word
  dx : Word
  si : Word
  di : Word
  bp : Word
  sp : Word
  ip : Word
  cs : Word
  ds : Word
  es : Word
  ss : Word
  flags : Word
  deriving DecidableEq, Repr

/-- A general register by its number in an instruction. -/
abbrev RegisterIndex := BitVec 3

inductive WordRegister where
  | ax | cx | dx | bx | sp | bp | si | di
  deriving DecidableEq, Repr

inductive ByteRegister where
  | al | cl | dl | bl | ah | ch | dh | bh
  deriving DecidableEq, Repr

inductive SegmentRegister where
  | es | cs | ss | ds
  deriving DecidableEq, Repr

namespace WordRegister

/-- The word registers in the order of their numbers. -/
def all : List WordRegister := [ax, cx, dx, bx, sp, bp, si, di]

def ofIndex (index : RegisterIndex) : WordRegister := select all rfl index

end WordRegister

namespace ByteRegister

/-- The byte registers in the order of their numbers. -/
def all : List ByteRegister := [al, cl, dl, bl, ah, ch, dh, bh]

def ofIndex (index : RegisterIndex) : ByteRegister := select all rfl index

/-- The word register that a byte register is a half of. -/
def whole : ByteRegister → WordRegister
  | al | ah => .ax
  | cl | ch => .cx
  | dl | dh => .dx
  | bl | bh => .bx

/-- Is the register the upper half? -/
def isHigh : ByteRegister → Bool
  | al | cl | dl | bl => false
  | ah | ch | dh | bh => true

end ByteRegister

namespace SegmentRegister

/-- The segment registers in the order of their numbers; only the two lower bits count. -/
def all : List SegmentRegister := [es, cs, ss, ds, es, cs, ss, ds]

def ofIndex (index : RegisterIndex) : SegmentRegister := select all rfl index

end SegmentRegister

namespace Registers

/-- Every register zero and no flag set. -/
def initial : Registers :=
  ⟨0, 0, 0, 0, 0, 0, 0, 0, 0, 0, 0, 0, 0, Flags.none⟩

/-- Where the next instruction byte lies. -/
def codePointer (r : Registers) : FarPointer := ⟨r.cs, r.ip⟩

/-- The top of the stack. -/
def stackPointer (r : Registers) : FarPointer := ⟨r.ss, r.sp⟩

/-! ## Access by name -/

def word (r : Registers) : WordRegister → Word
  | .ax => r.ax
  | .cx => r.cx
  | .dx => r.dx
  | .bx => r.bx
  | .sp => r.sp
  | .bp => r.bp
  | .si => r.si
  | .di => r.di

def setWord (r : Registers) (name : WordRegister) (value : Word) : Registers :=
  match name with
  | .ax => { r with ax := value }
  | .cx => { r with cx := value }
  | .dx => { r with dx := value }
  | .bx => { r with bx := value }
  | .sp => { r with sp := value }
  | .bp => { r with bp := value }
  | .si => { r with si := value }
  | .di => { r with di := value }

def byte (r : Registers) (name : ByteRegister) : Byte :=
  let whole := r.word name.whole
  if name.isHigh then Word.high whole else Word.low whole

def setByte (r : Registers) (name : ByteRegister) (value : Byte) : Registers :=
  let whole := r.word name.whole
  r.setWord name.whole
    (if name.isHigh then Word.ofBytes (Word.low whole) value
      else Word.ofBytes value (Word.high whole))

def segment (r : Registers) : SegmentRegister → Word
  | .es => r.es
  | .cs => r.cs
  | .ss => r.ss
  | .ds => r.ds

def setSegment (r : Registers) (name : SegmentRegister) (value : Word) : Registers :=
  match name with
  | .es => { r with es := value }
  | .cs => { r with cs := value }
  | .ss => { r with ss := value }
  | .ds => { r with ds := value }

/-- The register of a width that a number names. -/
def get (r : Registers) (width : Width) (index : RegisterIndex) : BitVec width.bits :=
  match width with
  | .byte => r.byte (.ofIndex index)
  | .word => r.word (.ofIndex index)

def set (r : Registers) (width : Width) (index : RegisterIndex) (value : BitVec width.bits) :
    Registers :=
  match width with
  | .byte => r.setByte (.ofIndex index) value
  | .word => r.setWord (.ofIndex index) value

/-! ## Flags -/

def flag (r : Registers) (flag : Flag) : Bool := Flags.get r.flags flag

def setFlag (r : Registers) (flag : Flag) (value : Bool) : Registers :=
  { r with flags := Flags.set r.flags flag value }

/-- Is any of the flags of a mask set? -/
def anyFlag (r : Registers) (mask : Word) : Bool := (Flags.named mask).any r.flag

/-- Sets or clears all flags of a mask. -/
def setFlags (r : Registers) (mask : Word) (value : Bool) : Registers :=
  { r with flags := Flags.setAll r.flags (Flags.named mask) value }

/-! ## Text -/

/-- The registers with their names, in the order in which a trace shows them. -/
def named (r : Registers) : List (String × Word) :=
  [("ax", r.ax), ("bx", r.bx), ("cx", r.cx), ("dx", r.dx), ("si", r.si), ("di", r.di),
    ("bp", r.bp), ("sp", r.sp), ("cs", r.cs), ("ip", r.ip), ("ds", r.ds), ("es", r.es),
    ("ss", r.ss), ("flags", r.flags)]

def text (r : Registers) : String :=
  String.intercalate " "
    (r.named.map fun (name, value) => name ++ "=" ++ Text.hex 4 value.toNat)

end Registers

end CmStream
