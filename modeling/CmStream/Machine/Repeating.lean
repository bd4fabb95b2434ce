import CmStream.Machine.Accesses
import CmStream.Machine.GivingUp
import Mathlib.Order.Bounds.Defs

/-!
# Repeated string operations

What the bytes of a repeated string operation say, where its elements lie and which accesses they
ask for, and how many of them a comparison gets to. The elements are numbered from zero in the order
in which they are handled.
-/

namespace CmStream

/-- The address of one of the bytes of data at a place. -/
def FarPointer.Covers (place : FarPointer) (width : Width) (address : Nat) : Prop :=
  ∃ j, j < width.size.toNat ∧ address = (place.advance (BitVec.ofNat 16 j)).linear

/-- What an access asks for, whatever byte it moves. -/
def GrantedAccess.request (granted : GrantedAccess) : Access × FarPointer :=
  (granted.access, granted.place)

namespace PagedMemory

/-- The data at a place, unless some of it cannot be read. -/
def data? (m : PagedMemory) (width : Width) (place : FarPointer) : Option (BitVec width.bits) :=
  match width with
  | .byte => (m.read .read place.linear).toOption
  | .word => do
    let first ← (m.read .read place.linear).toOption
    let second ← (m.read .read (place.advance 1).linear).toOption
    return Word.ofBytes first second

end PagedMemory

namespace StringOperation

/-- How an operation gets at the bytes of its destination. -/
def destinationAccess (operation : StringOperation) : Access :=
  if operation.compares then .read else .write

/-- As many elements one after the other, with no counter and nothing in between. -/
def uncounted (operation : StringOperation) (width : Width) (sourceSegment : Word) :
    (count : Nat) → Microprogram Unit
  | 0 => return ()
  | count + 1 => do
    uncounted operation width sourceSegment count
    operation.element width sourceSegment

end StringOperation

namespace Encoding

/-- The repetition that a modifier asks for. -/
def repeats? (modifier : Byte) : Option Repetition :=
  match modifier.toNat with
  | 0xf2 => some .whileNotEqual
  | 0xf3 => some .whileEqual
  | _ => none

/-- What the last repetition among some modifiers is. -/
def repetition? (modifiers : List Byte) : Option Repetition :=
  (modifiers.filterMap repeats?).getLast?

def stringOpcode : StringOperation → Width → Byte
  | .movs, .byte => 0xa4
  | .movs, .word => 0xa5
  | .cmps, .byte => 0xa6
  | .cmps, .word => 0xa7
  | .stos, .byte => 0xaa
  | .stos, .word => 0xab
  | .lods, .byte => 0xac
  | .lods, .word => 0xad
  | .scas, .byte => 0xae
  | .scas, .word => 0xaf

end Encoding

namespace Machine

open Encoding StringOperation

variable (m : Machine) (head : Head) (operation : StringOperation) (width : Width)

/-! ## Where the elements lie -/

/-- The segment of the source: an override, or the data segment. -/
def sourceSegment : Word := (override? head.modifiers m.registers).getD m.registers.ds

/-- Where the source of an element lies; the offset wraps within the segment. -/
def sourceOf (i : Nat) : FarPointer :=
  ⟨m.sourceSegment head, m.registers.si + BitVec.ofNat 16 i * stride width m.registers⟩

/-- Where the destination of an element lies; the offset wraps within the segment. -/
def destinationOf (i : Nat) : FarPointer :=
  ⟨m.registers.es, m.registers.di + BitVec.ofNat 16 i * stride width m.registers⟩

/-- The destination of one of the elements that are counted covers the address. -/
def Fills (address : Nat) : Prop :=
  ∃ i, i < m.registers.cx.toNat ∧ (m.destinationOf width i).Covers width address

/-- The accesses that an element asks for, in their order: the bytes of its source first. -/
def requestedIn (i : Nat) : List (Access × FarPointer) :=
  (if operation.usesSource then
      ((m.sourceOf head width i).following width.size.toNat).map (.read, ·) else [])
    ++ if operation.usesDestination then
      ((m.destinationOf width i).following width.size.toNat).map (operation.destinationAccess, ·)
      else []

/-! ## Comparisons -/

/-- What a comparison compares with the destination of an element: its source, unless that cannot
be read, or the accumulator. -/
def first? (i : Nat) : Option (BitVec width.bits) :=
  if operation.usesSource then m.memory.data? width (m.sourceOf head width i)
  else some (m.registers.get width 0)

/-- The two values that a comparison compares in an element, unless some of them cannot be read. -/
def pair? (i : Nat) : Option (BitVec width.bits × BitVec width.bits) :=
  (m.first? head operation width i).bind fun a =>
    (m.memory.data? width (m.destinationOf width i)).map fun b => (a, b)

/-- The places that a comparison reads in an element. -/
def comparedIn (i : Nat) : List FarPointer :=
  (if operation.usesSource then (m.sourceOf head width i).following width.size.toNat else [])
    ++ (m.destinationOf width i).following width.size.toNat

/-- The flags word when a comparison has handled `i` elements: as it was before, or as comparing the
last of the pairs leaves it. -/
def flagsAfter : (i : Nat) → Word
  | 0 => m.registers.flags
  | i + 1 =>
    match m.pair? head operation width i with
    | some (a, b) => (Arithmetic.Operation.cmp.compute a b m.registers.flags).flags
    | none => m.registers.flags

/-- Is the element what the search is for? A search that goes on while elements are equal is for
one that is not. -/
def Hits (repetition : Repetition) (i : Nat) : Prop :=
  ∃ a b, m.pair? head operation width i = some (a, b) ∧ (a = b ↔ repetition = .whileNotEqual)

/-- How many elements a search gets to: up to and with the first hit, or all that are counted. -/
inductive GetsTo (repetition : Repetition) : Nat → Prop
  | hit {i : Nat} (first : IsLeast
      { i | i < m.registers.cx.toNat ∧ m.Hits head operation width repetition i } i) :
      GetsTo repetition (i + 1)
  | all (none : ∀ i, i < m.registers.cx.toNat → ¬ m.Hits head operation width repetition i) :
      GetsTo repetition m.registers.cx.toNat

end Machine

namespace StringOperation

/-- The registers when `i` elements have been handled, apart from the flags that a comparison
sets. -/
def registersAfter (operation : StringOperation) (width : Width) (r : Registers) (i : Nat) :
    Registers :=
  { r with
    cx := r.cx - BitVec.ofNat 16 i
    si := if operation.usesSource then r.si + BitVec.ofNat 16 i * stride width r else r.si
    di := if operation.usesDestination then r.di + BitVec.ofNat 16 i * stride width r else r.di }

/-! ## Copies -/

/-- The address `i` bytes further, upward or downward. -/
def along (down : Bool) (address i : Nat) : Nat := if down then address - i else address + i

/-- How far an address is ahead of another one, upward or downward. -/
def lead (down : Bool) (address ahead : Nat) : Int :=
  if down then (address : Int) - ahead else (ahead : Int) - address

/-- From an offset on, upward or downward, there are as many bytes before the segment ends. -/
def HasRoom (down : Bool) (offset : Word) (count : Nat) : Prop :=
  if down then count ≤ offset.toNat + 1 else offset.toNat + count ≤ 0x10000

instance (down : Bool) (offset : Word) (count : Nat) : Decidable (HasRoom down offset count) :=
  inferInstanceAs (Decidable (if down then _ else _))

/-- Which of the original source bytes ends up as byte `i` of a copy. If the target is ahead of the
source by less than is copied, the bytes in between are replicated. -/
def copiedFrom (count : Nat) (ahead : Int) (i : Nat) : Nat :=
  if ahead ≤ 0 ∨ count ≤ ahead then i else i % ahead.toNat

end StringOperation

end CmStream
