import CmStream.Machine.Step

/-!
# Latches for modifiers

Between a modifier and the instruction behind it a processor has to keep what the modifier says.
It does so in two latches, one for an override and one for a repeat modifier. They are cleared when
a step begins and not when it ends, so an instruction leaves its modifiers behind, also where it
gives up.
-/

namespace CmStream

/-- A machine and what its latches hold. -/
structure LatchedMachine where
  machine : Machine
  latches : Modifiers
  deriving DecidableEq, Repr

namespace LatchedMachine

/-- Fetches an opcode and latches the modifiers in front of it. One modifier more than are allowed
is latched too before the instruction turns out to be undefined. -/
def fetch : (allowed : Nat) → LatchedMachine →
    Except Cause (Byte × Instruction) × LatchedMachine
  | allowed, l =>
    match Microprogram.fetchByte.run l.machine with
    | (.error cause, m) => (.error cause, { l with machine := m })
    | (.ok byte, m) =>
      match Opcode.ofByte byte with
      | .instruction instruction => (.ok (byte, instruction), { l with machine := m })
      | .modifier modifier =>
        let latched : LatchedMachine := ⟨m, l.latches.add modifier m.registers⟩
        match allowed with
        | 0 => (.error (.undefinedOpcode byte), latched)
        | allowed + 1 => fetch allowed latched

/-- Clears the latches, fetches an instruction and performs it with what the latches then hold. -/
def step (l : LatchedMachine) : Outcome × LatchedMachine :=
  let place := l.machine.registers.codePointer
  match fetch Instruction.maxModifiers { l with latches := Modifiers.none } with
  | (.error cause, after) => (.stopped (.gaveUp place cause), after)
  | (.ok (opcode, instruction), fetched) =>
    match (instruction.perform opcode fetched.latches).run fetched.machine with
    | (.error cause, m) => (.stopped (.gaveUp place cause), { fetched with machine := m })
    | (.ok (), m) =>
      (if instruction == .halt then .halted else .continued, { fetched with machine := m })

/-- At most `granted` steps, after `made` steps that count towards the sum. -/
def runFrom : (granted made : Nat) → LatchedMachine → Except Stop Nat × LatchedMachine
  | 0, made, l => (.error (.stepLimit made), l)
  | granted + 1, made, l =>
    match l.step with
    | (.continued, after) => runFrom granted (made + 1) after
    | (.halted, after) => (.ok (made + 1), after)
    | (.stopped stop, after) => (.error stop, after)

def run (limit : Nat) (l : LatchedMachine) : Except Stop Nat × LatchedMachine :=
  runFrom limit 0 l

end LatchedMachine

end CmStream
