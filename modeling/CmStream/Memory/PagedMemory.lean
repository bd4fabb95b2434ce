import CmStream.Memory.Access

/-!
# Paged memory

Memory is a list of byte regions and a page table over the linear addresses that a far pointer
can name. A page is either unmapped or a window of one page's size into a region, with
permissions of its own; a region may be seen through several pages. Regions are numbered in
the order in which they are allocated, and never move, shrink or grow.
-/

namespace CmStream

/-- The number of bytes of a page. -/
def pageSize : Nat := 0x1000

/-- The number of pages, enough for every address that a far pointer can name. -/
def pageCount : Nat := 0x110

/-- The window that a mapped page shows. -/
structure Page where
  region : Nat
  offset : Nat
  permissions : Permissions
  deriving DecidableEq, Repr

/-- A byte of a region. -/
structure Slot where
  region : Nat
  offset : Nat
  deriving DecidableEq, Repr

/-- A mapping that cannot be made. -/
inductive MapError where
  | unalignedBase (base : Nat)
  | unalignedLength (length : Nat)
  | outOfRange (base length : Nat)
  | overlap (address : Nat)
  deriving DecidableEq, Repr

namespace MapError

def message : MapError → String
  | unalignedBase base => "base address " ++ Text.markedHex 5 base ++ " is not page-aligned"
  | unalignedLength length => "region length " ++ Text.markedHex 1 length ++ " is not page-aligned"
  | outOfRange base length =>
    "region of " ++ Text.markedHex 1 length ++ " bytes at " ++ Text.markedHex 5 base
      ++ " lies outside the address space"
  | overlap address => "page at " ++ Text.markedHex 5 address ++ " is already mapped"

end MapError

structure PagedMemory where
  regions : Array (Array Byte)
  pages : Vector (Option Page) pageCount
  deriving DecidableEq, Repr

namespace PagedMemory

/-- No region and no mapped page. -/
def empty : PagedMemory := ⟨#[], Vector.replicate pageCount none⟩

/-! ## Regions -/

/-- The bytes of a region; none if there is no such region. -/
def region (m : PagedMemory) (index : Nat) : Array Byte := m.regions.getD index #[]

/-- Adds a region of zero bytes, which no page shows yet. -/
def allocate (m : PagedMemory) (length : Nat) : PagedMemory :=
  { m with regions := m.regions.push (Array.replicate length 0) }

/-- Writes bytes over an array from an offset on; what would lie behind its end is dropped. -/
def overwrite (target : Array Byte) (offset : Nat) : List Byte → Array Byte
  | [] => target
  | byte :: rest => overwrite (target.setIfInBounds offset byte) (offset + 1) rest

/-- Writes bytes over a region from an offset on, whatever the pages permit. -/
def poke (m : PagedMemory) (index offset : Nat) (bytes : List Byte) : PagedMemory :=
  { m with regions := m.regions.modify index fun region => overwrite region offset bytes }

/-- The bytes of a region from an offset on, at most as many as asked for. -/
def peek (m : PagedMemory) (index offset length : Nat) : List Byte :=
  ((m.region index).extract offset (offset + length)).toList

/-! ## Pages -/

def page? (m : PagedMemory) (index : Nat) : Option Page := (m.pages[index]?).join

/-- Maps `count` pages from page `first` on to the successive windows of a region. -/
def mapPages (m : PagedMemory) (first count index : Nat) (permissions : Permissions) :
    PagedMemory :=
  let window (i : Nat) : Page := ⟨index, (i - first) * pageSize, permissions⟩
  { m with pages := Vector.ofFn fun i =>
      if first ≤ i.val ∧ i.val < first + count then some (window i.val) else m.pages[i] }

/-- Shows the whole of a region from a base address on. Nothing is mapped unless everything is. -/
def map (m : PagedMemory) (base index : Nat) (permissions : Permissions) :
    Except MapError PagedMemory :=
  let length := (m.region index).size
  let first := base / pageSize
  let count := length / pageSize
  if base % pageSize ≠ 0 then .error (.unalignedBase base)
  else if length % pageSize ≠ 0 then .error (.unalignedLength length)
  else if pageCount < first + count then .error (.outOfRange base length)
  else match (List.range' first count).find? fun i => (m.page? i).isSome with
    | some i => .error (.overlap (i * pageSize))
    | none => .ok (m.mapPages first count index permissions)

/-! ## Access -/

/-- The byte behind a linear address, if its page grants the access. -/
def locate (m : PagedMemory) (access : Access) (address : Nat) : Except Fault Slot :=
  match m.page? (address / pageSize) with
  | some page =>
    if page.permissions.grants access then
      .ok ⟨page.region, page.offset + address % pageSize⟩
    else .error ⟨address, access⟩
  | none => .error ⟨address, access⟩

def byteAt (m : PagedMemory) (slot : Slot) : Byte := (m.region slot.region).getD slot.offset 0

def setByteAt (m : PagedMemory) (slot : Slot) (value : Byte) : PagedMemory :=
  { m with regions := m.regions.modify slot.region (·.setIfInBounds slot.offset value) }

def read (m : PagedMemory) (access : Access) (address : Nat) : Except Fault Byte :=
  (m.locate access address).map m.byteAt

def write (m : PagedMemory) (address : Nat) (value : Byte) : Except Fault PagedMemory :=
  (m.locate .write address).map fun slot => m.setByteAt slot value

end PagedMemory

end CmStream
