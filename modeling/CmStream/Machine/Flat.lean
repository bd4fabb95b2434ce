import CmStream.Machine.Step

/-!
# A machine with flat memory

The machine of a sandbox as it would be without pages: one row of bytes from address zero on, each
of which may be read, written and executed, and nothing behind them. It executes the same
instructions.
-/

namespace CmStream

/-- The number of bytes of flat memory. -/
def flatSize : Nat := 0x30000

abbrev FlatMemory := Vector Byte flatSize

structure FlatMachine where
  registers : Registers
  memory : FlatMemory
  deriving DecidableEq, Repr

namespace FlatMemory

/-- Below the end, every access leads to the byte that the address counts. -/
def read (m : FlatMemory) (access : Access) (address : Nat) : Except Fault Byte :=
  if h : address < flatSize then .ok m[address] else .error ⟨address, access⟩

def write (m : FlatMemory) (address : Nat) (value : Byte) : Except Fault FlatMemory :=
  if h : address < flatSize then .ok (m.set address value h) else .error ⟨address, .write⟩

end FlatMemory

/-- The value or the cause at the end of a microprogram, and the flat machine as it is then. -/
def Microprogram.runFlat {α : Type} :
    Microprogram α → FlatMachine → Except Cause α × FlatMachine
  | done value, m => (.ok value, m)
  | raise cause _, m => (.error cause, m)
  | load access _ place next, m =>
    match m.memory.read access place.linear with
    | .ok byte => (next byte).runFlat m
    | .error fault => (.error (.fault fault), m)
  | store place value next, m =>
    match m.memory.write place.linear value with
    | .ok memory => (next ()).runFlat { m with memory := memory }
    | .error fault => (.error (.fault fault), m)
  | inspect next, m => (next m.registers).runFlat m
  | replace registers next, m => (next ()).runFlat { m with registers := registers }

namespace FlatMachine

def step (m : FlatMachine) : Outcome × FlatMachine :=
  let place := m.registers.codePointer
  match Instruction.fetchAndPerform.runFlat m with
  | (.ok true, after) => (.halted, after)
  | (.ok false, after) => (.continued, after)
  | (.error cause, after) => (.stopped (.gaveUp place cause), after)

/-- The machine after `n` steps, whatever each of them has led to. -/
def after : (n : Nat) → FlatMachine → FlatMachine
  | 0, m => m
  | n + 1, m => after n m.step.2

end FlatMachine

end CmStream
