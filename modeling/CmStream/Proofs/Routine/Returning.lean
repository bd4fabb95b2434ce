import CmStream.Proofs.Machine.Instructions
import CmStream.Proofs.Machine.Iteration
import CmStream.Proofs.Routine.Placement

/-!
# How a routine comes back

A routine that has succeeded clears the carry and returns far. The return address that the call
has put on the stack leads to the foot of memory, where the machine halts.
-/

namespace CmStream

open Sandbox

namespace Routine

open Machine

/-- What a routine ends with that has succeeded: `clc`, `retf`. -/
def success : List Byte := [0xf8, 0xcb]

theorem flag_setFlag (r : Registers) (flag : Flag) (value : Bool) :
    (r.setFlag flag value).flag flag = value := by
  unfold Registers.flag Registers.setFlag
  rw [Flags.get_set, if_pos rfl]

/-- Two words of the far return address, both zero, are found on the stack. -/
theorem run_loadWord_return {memory : PagedMemory} (r : Registers) (hlaid : LaidOut memory)
    (hreturn : ∀ i, i < 4 → memory.byteAt ⟨codeRegion, returnSlot.toNat + i⟩ = 0) :
    (Microprogram.loadWord ⟨0, returnSlot⟩).run ⟨r, memory⟩ = (.ok 0, ⟨r, memory⟩)
      ∧ (Microprogram.loadWord (FarPointer.advance ⟨0, returnSlot⟩ 2)).run ⟨r, memory⟩
        = (.ok 0, ⟨r, memory⟩) := by
  have hbelow : returnSlot.toNat + 4 ≤ segmentSize := by decide
  have hword : ∀ (place : FarPointer) (j : Nat), j + 1 < 4 →
      place.linear = codeRegion * segmentSize + (returnSlot.toNat + j) →
      (place.advance 1).linear = codeRegion * segmentSize + (returnSlot.toNat + j + 1) →
      (Microprogram.loadWord place).run ⟨r, memory⟩ = (.ok 0, ⟨r, memory⟩) := by
    intro place j hj hplace hnext
    rw [Microprogram.run_loadWord_laidOut (m := ⟨r, memory⟩) hlaid hplace hnext (by decide)
      (by omega)]
    dsimp only
    rw [hreturn j (Nat.lt_of_succ_lt hj), Nat.add_assoc, hreturn (j + 1) hj]
    rfl
  exact ⟨hword _ 0 (by decide) (by decide) (by decide),
    hword _ 2 (by decide) (by decide) (by decide)⟩

/-- Two steps return to the foot with the carry clear, and there the machine halts. -/
theorem reaches_foot {m : Machine} {front : List Byte}
    (h : At (front ++ success) front.length m)
    (hstack : m.registers.stackPointer = ⟨0, returnSlot⟩)
    (hreturn : ∀ i, i < 4 → m.memory.byteAt ⟨codeRegion, returnSlot.toNat + i⟩ = 0) :
    ∃ m' last, m.Reaches 2 m' ∧ m'.step = (.halted, last) ∧ last.memory = m.memory
      ∧ last.registers.codePointer = expectedHalt ∧ last.registers.flag .carry = false
      ∧ last.registers.si = m.registers.si ∧ last.registers.di = m.registers.di := by
  have hface : m.Faces (0xf8 :: 0xcb :: []) := by
    have hrest := h.faces
    rw [List.drop_left] at hrest
    exact hrest
  let cleared := m.withRegisters
    (Registers.setFlag { m.registers with ip := m.registers.ip + 1 } .carry false)
  let returned := cleared.withRegisters { cleared.registers with
    ip := 0, cs := 0, sp := cleared.registers.sp + 2 + 2 + 0 }
  have hclear : m.step = (.continued, cleared) := step_setFlag hface rfl
  have hback : cleared.step = (.continued, returned) := by
    -- Clearing the carry has touched neither the stack nor the pointer to it.
    have hsecond : cleared.Faces (0xcb :: []) := hface.tail
    have hpointer : cleared.registers.stackPointer = ⟨0, returnSlot⟩ := hstack
    apply step_returnFar hsecond rfl
    · intro r
      rw [hpointer]
      exact (run_loadWord_return r h.loaded.laidOut hreturn).1
    · intro r
      rw [hpointer]
      exact (run_loadWord_return r h.loaded.laidOut hreturn).2
  have hhalt : returned.step = (.halted, returned.skip 1) :=
    step_halt (faces_foot h.loaded rfl) rfl
  exact ⟨returned, returned.skip 1, (Reaches.single hclear).trans (Reaches.single hback), hhalt,
    rfl, rfl, flag_setFlag _ _ _, rfl, rfl⟩

end Routine

end CmStream
