import CmStream.Machine.Step

/-!
# The accesses of a step

Every byte that passes between a machine and its memory, in the order in which it passes. A refused
access moves no byte; it ends the instruction, and the cause says which access it was.
-/

namespace CmStream

/-- An access that has been granted, with the byte that has been loaded or stored. -/
structure GrantedAccess where
  access : Access
  place : FarPointer
  byte : Byte
  deriving DecidableEq, Repr

/-- The accesses of a microprogram. -/
def Microprogram.accesses {α : Type} : Microprogram α → Machine → List GrantedAccess
  | done _, _ => []
  | raise _ _, _ => []
  | load access _ place next, m =>
    match m.memory.read access place.linear with
    | .ok byte => ⟨access, place, byte⟩ :: (next byte).accesses m
    | .error _ => []
  | store place value next, m =>
    match m.memory.locate .write place.linear with
    | .ok slot =>
      ⟨.write, place, value⟩
        :: (next ()).accesses { m with memory := m.memory.setByteAt slot value }
    | .error _ => []
  | inspect next, m => (next m.registers).accesses m
  | replace registers next, m => (next ()).accesses { m with registers := registers }

/-- As many places as asked for, one after the other; the offset wraps within the segment. -/
def FarPointer.following (place : FarPointer) (count : Nat) : List FarPointer :=
  (List.range count).map fun i => place.advance (BitVec.ofNat 16 i)

namespace GrantedAccess

/-- The accesses that fetch a byte of an instruction. -/
def fetches (accesses : List GrantedAccess) : List GrantedAccess :=
  accesses.filter (·.access = .execute)

/-- The stores of a word, its lower byte first. -/
def storesOf (place : FarPointer) (value : Word) : List GrantedAccess :=
  [⟨.write, place, Word.low value⟩, ⟨.write, place.advance 1, Word.high value⟩]

/-- The stores of words that are pushed one after the other. -/
def pushesOf (top : FarPointer) : List Word → List GrantedAccess
  | [] => []
  | value :: values =>
    let below : FarPointer := { top with offset := top.offset - 2 }
    storesOf below value ++ pushesOf below values

end GrantedAccess

namespace Machine

/-- The accesses of a step. -/
def accesses (m : Machine) : List GrantedAccess := Instruction.fetchAndPerform.accesses m

/-- Where the bytes lie that a step fetches. -/
def fetched (m : Machine) : List FarPointer := (GrantedAccess.fetches m.accesses).map (·.place)

/-- No access is refused in the step. -/
def Unrefused (m : Machine) : Prop :=
  ∀ place fault, m.step.1 ≠ .stopped (.gaveUp place (.fault fault))

/-- Does a step read data from a byte of a region or store to it? -/
def Touches (m : Machine) (slot : Slot) : Prop :=
  ∃ granted ∈ m.accesses, granted.access ≠ .execute
    ∧ m.memory.locate granted.access granted.place.linear = .ok slot

end Machine

end CmStream
