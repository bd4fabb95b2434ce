import CmStream.Checked.Number
import CmStream.FarPointer
import CmStream.Memory.PagedMemory

/-!
# Memory with every index looked up

Regions, pages and bytes are looked up in their tables, and where a table has no such entry the
computation is not defined. That a page shows a part of its region is not something that an access
can rely on, then, but something that has to be so.
-/

namespace CmStream

namespace Checked

/-- The linear address of a pointer, as a number of 32 bits. -/
def linear (place : FarPointer) : Option Nat := do
  let base ← Number.multiply 32 place.segment.toNat 16
  Number.add 32 base place.offset.toNat

/-! ## Regions -/

/-- Adds a region; says under which number. -/
def allocate (m : PagedMemory) (length : Nat) : Option (Nat × PagedMemory) := do
  let m := m.allocate length
  let index ← Number.subtract m.regions.size 1
  return (index, m)

/-- Copies bytes over the part of a region from one place up to another, which has to be as long as
they are. -/
def copyInto (m : PagedMemory) (index start stop : Nat) (bytes : List Byte) :
    Option PagedMemory := do
  let region ← m.regions[index]?
  let window ← slice region.toList start stop
  if window.length = bytes.length then return m.poke index start bytes else none

/-- The first bytes of a region. -/
def firstBytes (m : PagedMemory) (index length : Nat) : Option (List Byte) := do
  let region ← m.regions[index]?
  slice region.toList 0 length

/-! ## Pages -/

/-- The first of some pages that is mapped. -/
def firstMapped? (m : PagedMemory) : List Nat → Option (Option Nat)
  | [] => some none
  | i :: rest => do
    let page ← m.pages[i]?
    if page.isSome then return some i
    firstMapped? m rest

/-- Maps pages from page `first` on to the windows of a region with the given numbers. -/
def mapWindows (m : PagedMemory) (first index : Nat) (permissions : Permissions) :
    List Nat → Option PagedMemory
  | [] => some m
  | i :: rest => do
    let place ← Number.add 64 first i
    let offset ← Number.multiply 64 i pageSize
    if place < m.pages.size then
      let pages := m.pages.setIfInBounds place (some ⟨index, offset, permissions⟩)
      mapWindows { m with pages := pages } first index permissions rest
    else none

def map (m : PagedMemory) (base index : Nat) (permissions : Permissions) :
    Attempt MapError PagedMemory := do
  let region ← (m.regions[index]? : Option (Array Byte))
  let length := region.size
  let past ← Number.remainder base pageSize
  if past ≠ 0 then throw (.unalignedBase base)
  let past ← Number.remainder length pageSize
  if past ≠ 0 then throw (.unalignedLength length)
  let first ← Number.divide base pageSize
  let count ← Number.divide length pageSize
  let stop ← Number.add 64 first count
  if m.pages.size < stop then throw (.outOfRange base length)
  let taken ← firstMapped? m (List.range' first count)
  match taken with
  | some i =>
    let address ← Number.multiply 64 i pageSize
    throw (.overlap address)
  | none =>
    mapWindows m first index permissions (List.range count)

/-! ## Access -/

def locate (m : PagedMemory) (access : Access) (address : Nat) : Attempt Fault Slot := do
  let index ← Number.divide address pageSize
  match m.page? index with
  | some page =>
    if page.permissions.grants access then
      let within ← Number.remainder address pageSize
      let offset ← Number.add 64 page.offset within
      return ⟨page.region, offset⟩
    else throw ⟨address, access⟩
  | none => throw ⟨address, access⟩

def read (m : PagedMemory) (access : Access) (address : Nat) : Attempt Fault Byte := do
  let slot ← locate m access address
  let region ← (m.regions[slot.region]? : Option (Array Byte))
  (region[slot.offset]? : Option Byte)

def write (m : PagedMemory) (address : Nat) (value : Byte) : Attempt Fault PagedMemory := do
  let slot ← locate m .write address
  let region ← (m.regions[slot.region]? : Option (Array Byte))
  if slot.offset < region.size then return m.setByteAt slot value else undefined

end Checked

end CmStream
