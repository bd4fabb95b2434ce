import CmStream.Machine.Storing
import CmStream.Memory.History

/-!
# The stack

The words on the stack lie one above the other in the segment of the stack, the last one that was
pushed at the stack pointer. What pushes and pops come to is said by a list of words, and the
machine does the same as long as the list never holds more words than the segment has room for.
-/

namespace CmStream

namespace PagedMemory

/-- The word at a place, whatever the pages permit. -/
def word? (m : PagedMemory) (place : FarPointer) : Option Word := do
  let first ← m.byte? place.linear
  let second ← m.byte? (place.advance 1).linear
  return Word.ofBytes first second

/-- Every byte of a segment can be read and written. -/
def SegmentOpen (m : PagedMemory) (segment : Word) : Prop :=
  ∀ offset, m.Permits .read (FarPointer.mk segment offset).linear
    ∧ m.Permits .write (FarPointer.mk segment offset).linear

end PagedMemory

namespace Registers

/-- The address of one of the bytes of as many words just below the top of the stack. -/
def CoversBelow (r : Registers) (words address : Nat) : Prop :=
  ∃ place, r.Below words place ∧ address = place.linear

/-- The registers with that many words more on the stack. -/
def lowered (r : Registers) (words : Nat) : Registers :=
  { r with sp := r.sp - BitVec.ofNat 16 (2 * words) }

/-- The registers with the stack pointer at the base pointer. Just below lie the words by which a
frame finds those that enclose it. -/
def framed (r : Registers) : Registers := { r with sp := r.bp }

/-- Where the word lies that has that many words above it on the stack. -/
def wordPlace (r : Registers) (i : Nat) : FarPointer :=
  r.stackPointer.advance (BitVec.ofNat 16 (2 * i))

end Registers

/-- An operation on the stack. -/
inductive StackOperation where
  | push (value : Word)
  | pop
  deriving DecidableEq, Repr

namespace StackOperation

/-- Does the operation, and hands on what it pops. -/
def perform : StackOperation → Microprogram (List Word)
  | push value => do
    Microprogram.push value
    return []
  | pop => do
    let value ← Microprogram.pop
    return [value]

/-- Does the operations one after the other, and hands on what they pop, in order. -/
def performAll : List StackOperation → Microprogram (List Word)
  | [] => return []
  | operation :: operations => do
    let popped ← operation.perform
    let more ← performAll operations
    return popped ++ more

/-! ## The same on a list of words -/

/-- The number of words that a segment has room for. -/
def capacity : Nat := 0x8000

/-- There is always a word to pop and room to push, if that many words are there at first. -/
def Fits : (depth : Nat) → List StackOperation → Prop
  | _, [] => True
  | depth, push _ :: operations => depth < capacity ∧ Fits (depth + 1) operations
  | 0, pop :: _ => False
  | depth + 1, pop :: operations => Fits depth operations

/-- The words that are popped, in order. -/
def popped : List StackOperation → (stack : List Word) → List Word
  | [], _ => []
  | push value :: operations, stack => popped operations (value :: stack)
  | pop :: operations, stack => stack.take 1 ++ popped operations stack.tail

/-- The words that are left. -/
def left : List StackOperation → (stack : List Word) → List Word
  | [], stack => stack
  | push value :: operations, stack => left operations (value :: stack)
  | pop :: operations, stack => left operations stack.tail

/-- The most words that are there at any time. -/
def highest : (depth : Nat) → List StackOperation → Nat
  | depth, [] => depth
  | depth, push _ :: operations => highest (depth + 1) operations
  | depth, pop :: operations => max depth (highest (depth - 1) operations)

end StackOperation

end CmStream
