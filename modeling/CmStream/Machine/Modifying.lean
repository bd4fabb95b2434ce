import CmStream.Machine.Accesses
import CmStream.Machine.Latches
import CmStream.Machine.Repeating

/-!
# Instructions behind modifiers

What a step does once it has gone through the modifiers and the opcode, and which runs of modifiers
there is no telling apart: of all overrides in a run the last one counts, and so does the last of
all repetitions.
-/

namespace CmStream

namespace Encoding

/-- Two runs of modifiers of one length that agree in the last override and in the last
repetition. -/
structure Alike (code₁ code₂ : List Byte) : Prop where
  modify₁ : ∀ byte ∈ code₁, isModifier byte = true
  modify₂ : ∀ byte ∈ code₂, isModifier byte = true
  length : code₁.length = code₂.length
  segment : (code₁.filterMap segment?).getLast? = (code₂.filterMap segment?).getLast?
  repetition : repetition? code₁ = repetition? code₂

end Encoding

namespace Machine

/-- What a step comes to that began at a place and has fetched its instruction: the instruction is
performed, and what it gives up for is reported with the place. -/
def dispatch (m : Machine) (place : FarPointer) (opcode : Byte) (instruction : Instruction)
    (modifiers : Modifiers) : Outcome × Machine :=
  match (instruction.perform opcode modifiers).run m with
  | (.ok (), after) => (if instruction = .halt then .halted else .continued, after)
  | (.error cause, after) => (.stopped (.gaveUp place cause), after)

/-- After its first `n` accesses a step reads no hidden byte. It may store to one. -/
def Overlooks (m : Machine) (n : Nat) (hidden : Slot → Prop) : Prop :=
  ∀ granted ∈ m.accesses.drop n, granted.access ≠ .write →
    ∀ slot, m.memory.locate granted.access granted.place.linear = .ok slot → ¬ hidden slot

end Machine

end CmStream
