import CmStream.Memory.PagedMemory

/-!
# Histories of a memory

A memory comes about from an empty one by a sequence of operations, in any order and with any
arguments. An operation that fails leaves the memory as it is. What holds of every such memory is
stated here in terms of addresses, not of pages: how mapping goes and fails, and what a write does
to what is read afterwards.
-/

namespace CmStream

namespace PagedMemory

inductive Operation where
  | allocate (length : Nat)
  | map (base index : Nat) (permissions : Permissions)
  | write (address : Nat) (value : Byte)
  | poke (index offset : Nat) (bytes : List Byte)
  deriving DecidableEq, Repr

def perform (m : PagedMemory) : Operation → PagedMemory
  | .allocate length => m.allocate length
  | .map base index permissions =>
    match m.map base index permissions with
    | .ok mapped => mapped
    | .error _ => m
  | .write address value =>
    match m.write address value with
    | .ok written => written
    | .error _ => m
  | .poke index offset bytes => m.poke index offset bytes

/-- The memory that some operations make of an empty one. -/
def after (operations : List Operation) : PagedMemory := operations.foldl perform empty

/-- The first address that no page shows. -/
def addressLimit : Nat := 0x110000

/-- The page begins somewhere in a range of addresses. -/
def Covers (base length index : Nat) : Prop :=
  base ≤ index * pageSize ∧ index * pageSize < base + length

instance (base length index : Nat) : Decidable (Covers base length index) :=
  inferInstanceAs (Decidable (_ ∧ _))

/-- The byte behind an address, whatever its page permits. -/
def backing? (m : PagedMemory) (address : Nat) : Option Slot :=
  (m.page? (address / pageSize)).map fun page => ⟨page.region, page.offset + address % pageSize⟩

/-- No byte of a region lies behind two addresses. -/
def Unaliased (m : PagedMemory) : Prop :=
  ∀ address address' slot, m.backing? address = some slot → m.backing? address' = some slot →
    address = address'

/-- What the byte behind an address is, whatever its page permits. -/
def byte? (m : PagedMemory) (address : Nat) : Option Byte := (m.backing? address).map m.byteAt

/-- An access to the address is granted. -/
def Permits (m : PagedMemory) (access : Access) (address : Nat) : Prop :=
  ∃ slot, m.locate access address = .ok slot

/-- The slot lies behind one of some addresses. -/
def Behind (m : PagedMemory) (addresses : Nat → Prop) (slot : Slot) : Prop :=
  ∃ address, addresses address ∧ m.backing? address = some slot

/-- A region can be shown from a base address on. -/
structure Mappable (m : PagedMemory) (base index : Nat) : Prop where
  alignedBase : base % pageSize = 0
  alignedLength : (m.region index).size % pageSize = 0
  fits : base + (m.region index).size ≤ addressLimit
  free : ∀ i, Covers base (m.region index).size i → m.page? i = none

/-- The first reason, in the order in which they are looked for, that a region cannot be shown from
a base address on. -/
inductive Unmappable (m : PagedMemory) (base index : Nat) : MapError → Prop
  | unalignedBase (unaligned : base % pageSize ≠ 0) : Unmappable m base index (.unalignedBase base)
  | unalignedLength (alignedBase : base % pageSize = 0)
      (unaligned : (m.region index).size % pageSize ≠ 0) :
      Unmappable m base index (.unalignedLength (m.region index).size)
  | outOfRange (alignedBase : base % pageSize = 0)
      (alignedLength : (m.region index).size % pageSize = 0)
      (exceeds : addressLimit < base + (m.region index).size) :
      Unmappable m base index (.outOfRange base (m.region index).size)
  | overlap {lowest : Nat} (alignedBase : base % pageSize = 0)
      (alignedLength : (m.region index).size % pageSize = 0)
      (fits : base + (m.region index).size ≤ addressLimit)
      (covered : Covers base (m.region index).size lowest)
      (mapped : (m.page? lowest).isSome = true)
      (free : ∀ i, Covers base (m.region index).size i → i < lowest → m.page? i = none) :
      Unmappable m base index (.overlap (lowest * pageSize))

/-- The laws of a memory. -/
structure Lawful (m : PagedMemory) : Prop where
  /-- Pages show whole windows of regions that exist. -/
  window : ∀ index page, m.page? index = some page →
    page.region < m.regions.size ∧ page.offset % pageSize = 0
      ∧ page.offset + pageSize ≤ (m.region page.region).size
  /-- What an access finds can be looked up, at any address whatsoever. -/
  within : ∀ access address slot, m.locate access address = .ok slot →
    ∃ region byte, m.regions[slot.region]? = some region ∧ region[slot.offset]? = some byte
  mappable : ∀ base index permissions,
    (∃ mapped, m.map base index permissions = .ok mapped) ↔ m.Mappable base index
  /-- Just the pages of the range show the region from now on, window by window. -/
  maps : ∀ base index permissions mapped, m.map base index permissions = .ok mapped →
    mapped.regions = m.regions
      ∧ ∀ i, mapped.page? i = if Covers base (m.region index).size i then
          some ⟨index, i * pageSize - base, permissions⟩
        else m.page? i
  unmappable : ∀ base index permissions error, m.map base index permissions = .error error ↔
    m.Unmappable base index error
  unchanged : ∀ base index permissions, ¬ m.Mappable base index →
    m.perform (.map base index permissions) = m
  /-- A write is seen at every address of the same byte, and at no other. -/
  writes : ∀ address value written, m.write address value = .ok written →
    ∀ access other, written.read access other
      = if m.backing? other = m.backing? address then (m.read access other).map fun _ => value
        else m.read access other

end PagedMemory

end CmStream
