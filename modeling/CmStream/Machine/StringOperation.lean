import CmStream.Machine.Microprogram

/-!
# String operations

A string operation handles one element at the source index, at the destination index, or at
both, and moves the indices that it has used by one element, downward if the direction flag is
set. The destination always counts from the extra segment. With a repeat modifier the counter
says how many elements to handle; comparisons stop as soon as one turns out the other way than
the modifier asks for.
-/

namespace CmStream

/-- The modifier that repeats a string operation. It matters to comparisons alone which one. -/
inductive Repetition where
  | whileEqual
  | whileNotEqual
  deriving DecidableEq, Repr

inductive StringOperation where
  | movs | cmps | stos | lods | scas
  deriving DecidableEq, Repr

namespace StringOperation

open Microprogram

def usesSource : StringOperation → Bool
  | movs | cmps | lods => true
  | stos | scas => false

def usesDestination : StringOperation → Bool
  | movs | cmps | stos | scas => true
  | lods => false

def compares : StringOperation → Bool
  | cmps | scas => true
  | movs | stos | lods => false

/-- By how much the indices move. -/
def stride (width : Width) (r : Registers) : Word :=
  if r.flag .direction then -width.size else width.size

/-- Moves the indices that an operation uses. -/
def advance (operation : StringOperation) (width : Width) (r : Registers) : Registers :=
  { r with
    si := if operation.usesSource then r.si + stride width r else r.si
    di := if operation.usesDestination then r.di + stride width r else r.di }

/-- What happens to the element under the indices. -/
def handle (operation : StringOperation) (width : Width) (sourceSegment : Word) :
    Microprogram Unit := do
  let r ← registers
  let source : FarPointer := ⟨sourceSegment, r.si⟩
  let destination : FarPointer := ⟨r.es, r.di⟩
  match operation with
  | movs =>
    let value ← loadData width source
    storeData width destination value
  | cmps =>
    let a ← loadData width source
    let b ← loadData width destination
    discard (settle (Arithmetic.subtract a b false))
  | stos => storeData width destination (r.get width 0)
  | lods =>
    let value ← loadData width source
    modifyRegisters (·.set width 0 value)
  | scas =>
    let b ← loadData width destination
    discard (settle (Arithmetic.subtract (r.get width 0) b false))

/-- One element, and on to the next. -/
def element (operation : StringOperation) (width : Width) (sourceSegment : Word) :
    Microprogram Unit := do
  operation.handle width sourceSegment
  modifyRegisters (operation.advance width)

/-- Has a comparison turned out the other way than the modifier asks for? -/
def isOver (operation : StringOperation) (repetition : Repetition) (r : Registers) : Bool :=
  operation.compares && r.flag .zero != (repetition == .whileEqual)

/-- At most `count` elements; each one takes one off the counter. -/
def elements (operation : StringOperation) (width : Width) (sourceSegment : Word)
    (repetition : Repetition) : (count : Nat) → Microprogram Unit
  | 0 => return ()
  | count + 1 => do
    operation.element width sourceSegment
    modifyRegisters fun r => { r with cx := r.cx - 1 }
    let r ← registers
    if operation.isOver repetition r then return ()
    elements operation width sourceSegment repetition count

/-- The operation as an instruction, with the segment of the source and the repeat modifier if
there are any. -/
def perform (operation : StringOperation) (width : Width) (override : Option Word)
    (repetition : Option Repetition) : Microprogram Unit := do
  let r ← registers
  let sourceSegment := override.getD r.ds
  match repetition with
  | none => operation.element width sourceSegment
  | some repetition => operation.elements width sourceSegment repetition r.cx.toNat

end StringOperation

end CmStream
