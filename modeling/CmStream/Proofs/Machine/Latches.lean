import CmStream.Machine.Latches
import CmStream.Proofs.Machine.Running

/-!
# Nothing is left in the latches

What a step comes to does not depend on the modifiers that the step before it has left in the
latches: a machine with latches makes the same steps as the machine without them, to which the
modifiers of an instruction are handed on as they are fetched.
-/

namespace CmStream

namespace LatchedMachine

open Microprogram

variable {l l' : LatchedMachine}

/-- Fetching finds the same opcode, and hands on as modifiers what the latches then hold. -/
theorem run_fetch_eq (allowed : Nat) (l : LatchedMachine) :
    (Instruction.fetch allowed l.latches).run l.machine
      = ((l.fetch allowed).1.map fun (opcode, instruction) =>
          ⟨opcode, instruction, (l.fetch allowed).2.latches⟩, (l.fetch allowed).2.machine) := by
  induction allowed generalizing l with
  | zero =>
    unfold Instruction.fetch fetch
    rw [run_bind]
    rcases fetchByte.run l.machine with ⟨cause | byte, m⟩
    · rfl
    · dsimp only
      cases Opcode.ofByte byte with
      | instruction instruction => rfl
      | modifier modifier => rfl
  | succ allowed ih =>
    unfold Instruction.fetch fetch
    rw [run_bind]
    rcases fetchByte.run l.machine with ⟨cause | byte, m⟩
    · rfl
    · dsimp only
      cases Opcode.ofByte byte with
      | instruction instruction => rfl
      | modifier modifier => exact ih ⟨m, l.latches.add modifier m.registers⟩

/-- A step comes to what it comes to without latches. -/
theorem step_eq (l : LatchedMachine) :
    l.step.1 = l.machine.step.1 ∧ l.step.2.machine = l.machine.step.2 := by
  have hfetch := run_fetch_eq Instruction.maxModifiers { l with latches := Modifiers.none }
  unfold step Machine.step Instruction.fetchAndPerform
  rw [run_bind, hfetch]
  rcases fetch Instruction.maxModifiers { l with latches := Modifiers.none } with
    ⟨cause | ⟨opcode, instruction⟩, fetched⟩
  · exact ⟨rfl, rfl⟩
  · simp only [Except.map]
    rw [run_bind]
    rcases (instruction.perform opcode fetched.latches).run fetched.machine with ⟨cause | ⟨⟩, m⟩
    · exact ⟨rfl, rfl⟩
    · dsimp only
      rw [run_pure]
      cases instruction == .halt <;> exact ⟨rfl, rfl⟩

/-- What the latches held before a step is cleared before anything can look at it. -/
theorem step_congr (h : l.machine = l'.machine) : l.step = l'.step := by
  unfold step
  rw [h]

theorem runFrom_eq (granted made : Nat) (l : LatchedMachine) :
    (l.runFrom granted made).1 = (l.machine.runFrom granted made).1
      ∧ (l.runFrom granted made).2.machine = (l.machine.runFrom granted made).2 := by
  induction granted generalizing made l with
  | zero => exact ⟨rfl, rfl⟩
  | succ granted ih =>
    obtain ⟨houtcome, hmachine⟩ := step_eq l
    unfold runFrom Machine.runFrom
    rcases hlatched : l.step with ⟨outcome, after⟩
    rcases hplain : l.machine.step with ⟨outcome', after'⟩
    rw [hlatched, hplain] at houtcome hmachine
    obtain rfl : outcome = outcome' := houtcome
    obtain rfl : after.machine = after' := hmachine
    cases outcome with
    | continued => exact ih (made + 1) after
    | halted => exact ⟨rfl, rfl⟩
    | stopped stop => exact ⟨rfl, rfl⟩

end LatchedMachine

end CmStream
