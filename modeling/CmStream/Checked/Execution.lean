import CmStream.Checked.Instruction
import CmStream.Checked.Memory

/-!
# Steps and runs with every access checked

Microprograms are run on memory with every index looked up, and steps are counted as a number of 64
bits.
-/

namespace CmStream

namespace Checked

/-- The value or the cause at the end of a microprogram, and the machine as it is then. -/
def runEffects {α : Type} : Microprogram α → Machine → Option (Except Cause α × Machine)
  | .done value, m => some (.ok value, m)
  | .raise cause _, m => some (.error cause, m)
  | .load access _ place next, m => do
    let address ← linear place
    match ← (read m.memory access address).run with
    | .ok byte => runEffects (next byte) m
    | .error fault => some (.error (.fault fault), m)
  | .store place value next, m => do
    let address ← linear place
    match ← (write m.memory address value).run with
    | .ok memory => runEffects (next ()) { m with memory := memory }
    | .error fault => some (.error (.fault fault), m)
  | .inspect next, m => runEffects (next m.registers) m
  | .replace registers next, m => runEffects (next ()) { m with registers := registers }

/-- A program with computations in between: none of them may turn out not to be defined. -/
def runProgram {α : Type} (p : Program α) (m : Machine) : Option (Except Cause α × Machine) := do
  match ← runEffects p.run m with
  | (.ok (some value), after) => some (.ok value, after)
  | (.ok none, _) => none
  | (.error cause, after) => some (.error cause, after)

def step (m : Machine) : Option (Outcome × Machine) := do
  let place := m.registers.codePointer
  match ← runProgram fetchAndPerform m with
  | (.ok true, after) => some (.halted, after)
  | (.ok false, after) => some (.continued, after)
  | (.error cause, after) => some (.stopped (.gaveUp place cause), after)

/-- Counts steps up to a limit, which ends the loop before its turns do. -/
def runFrom (limit : Nat) : (turns made : Nat) → Machine → Option (Except Stop Nat × Machine)
  | 0, _, _ => none
  | turns + 1, made, m =>
    if limit ≤ made then some (.error (.stepLimit made), m)
    else do
      let made ← Number.add 64 made 1
      match ← step m with
      | (.continued, after) => runFrom limit turns made after
      | (.halted, after) => some (.ok made, after)
      | (.stopped stop, after) => some (.error stop, after)

def run (limit : Nat) (m : Machine) : Option (Except Stop Nat × Machine) :=
  runFrom limit (limit + 1) 0 m

end Checked

end CmStream
