import CmStream.Machine.Execution

/-!
# Steps and runs

A step is one instruction with its modifiers. A run repeats steps until an instruction halts the
machine, a step stops it, or a given number of steps has been made. A step that stops the
machine leaves it as the instruction has left it at that point.
-/

namespace CmStream

/-- Why a machine stopped other than by a halting instruction. -/
inductive Stop where
  /-- The instruction at a place gave up. -/
  | gaveUp (place : FarPointer) (cause : Cause)
  /-- The steps that were granted have been made. -/
  | stepLimit (steps : Nat)
  deriving DecidableEq, Repr

namespace Stop

def message : Stop → String
  | gaveUp place cause => cause.message ++ " at " ++ place.text
  | stepLimit steps => "stopped after " ++ toString steps ++ " instructions without halting"

def isStepLimit : Stop → Bool
  | gaveUp _ _ => false
  | stepLimit _ => true

end Stop

/-- What a step leads to. -/
inductive Outcome where
  | continued
  | halted
  | stopped (stop : Stop)
  deriving DecidableEq, Repr

namespace Instruction

open Microprogram

/-- An instruction with what precedes it. -/
structure Fetched where
  opcode : Byte
  instruction : Instruction
  modifiers : Modifiers
  deriving DecidableEq, Repr

/-- The number of modifiers that an instruction may have. -/
def maxModifiers : Nat := 15

/-- Fetches an instruction with at most `allowed` modifiers in front of it. One more modifier
makes the instruction undefined, and is named as its opcode. -/
def fetch (allowed : Nat) (modifiers : Modifiers) : Microprogram Fetched := do
  let byte ← fetchByte
  match Opcode.ofByte byte with
  | .instruction instruction => return ⟨byte, instruction, modifiers⟩
  | .modifier modifier =>
    match allowed with
    | 0 => giveUp (.undefinedOpcode byte)
    | allowed + 1 =>
      let r ← registers
      fetch allowed (modifiers.add modifier r)

/-- A whole instruction; says whether it halts the machine. -/
def fetchAndPerform : Microprogram Bool := do
  let fetched ← fetch maxModifiers Modifiers.none
  fetched.instruction.perform fetched.opcode fetched.modifiers
  return fetched.instruction == .halt

end Instruction

namespace Machine

def step (m : Machine) : Outcome × Machine :=
  let place := m.registers.codePointer
  match Instruction.fetchAndPerform.run m with
  | (.ok true, after) => (.halted, after)
  | (.ok false, after) => (.continued, after)
  | (.error cause, after) => (.stopped (.gaveUp place cause), after)

/-- At most `granted` steps, after `made` steps that count towards the sum. -/
def runFrom : (granted made : Nat) → Machine → Except Stop Nat × Machine
  | 0, made, m => (.error (.stepLimit made), m)
  | granted + 1, made, m =>
    match m.step with
    | (.continued, after) => runFrom granted (made + 1) after
    | (.halted, after) => (.ok (made + 1), after)
    | (.stopped stop, after) => (.error stop, after)

/-- Runs until the machine halts, and says how many steps that took, or until it stops, after
`limit` steps at the latest. -/
def run (limit : Nat) (m : Machine) : Except Stop Nat × Machine := runFrom limit 0 m

/-- The registers before each step of a run, put in front of those seen before in reverse. -/
def traceOnto (seen : List Registers) : (limit : Nat) → Machine → List Registers
  | 0, _ => seen
  | limit + 1, m =>
    let seen := m.registers :: seen
    match m.step with
    | (.continued, after) => traceOnto seen limit after
    | _ => seen

/-- The registers before each step of a run, in order. -/
def trace (limit : Nat) (m : Machine) : List Registers := (traceOnto [] limit m).reverse

end Machine

end CmStream
