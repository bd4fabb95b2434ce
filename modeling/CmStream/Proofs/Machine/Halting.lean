import CmStream.Proofs.Machine.Running

/-!
# Where a machine halts

A machine halts on a halting instruction and on nothing else: the byte that it has fetched last,
just before its instruction pointer, is the opcode of that instruction, and it is still there.
-/

namespace CmStream

namespace Opcode

/-- The opcode of the halting instruction. -/
def halt : Byte := 0xf4

theorem eq_halt_of_ofByte {byte : Byte} (h : ofByte byte = .instruction .halt) : byte = halt := by
  revert byte
  decide +kernel

end Opcode

namespace Microprogram

variable {m after : Machine}

theorem run_fetchByte_eq_ok {byte : Byte} (h : fetchByte.run m = (.ok byte, after)) :
    after = m.skip 1 ∧ m.memory.read .execute m.registers.codePointer.linear = .ok byte := by
  unfold fetchByte at h
  rw [run_bind_of_ok _ run_registers] at h
  obtain ⟨loaded, between, hload, hrest⟩ := run_bind_eq_ok h
  unfold loadByte at hload
  rw [run] at hload
  split at hload
  case h_1 found hread =>
    cases hload
    cases hrest
    exact ⟨rfl, hread⟩
  case h_2 => cases hload

end Microprogram

namespace Instruction

open Microprogram

/-- The opcode that has been fetched lies in front of the instruction pointer. -/
theorem read_skip_one (m : Machine) :
    m.memory.read .execute
        (FarPointer.mk (m.skip 1).registers.cs ((m.skip 1).registers.ip - 1)).linear
      = m.memory.read .execute m.registers.codePointer.linear := by
  show m.memory.read _ (FarPointer.mk _ (m.registers.ip + 1 - 1)).linear = _
  rw [BitVec.add_sub_cancel]
  rfl

/-- What is left of fetching an instruction: memory as it was, and in front of the instruction
pointer the opcode. -/
theorem run_fetch_eq_ok {allowed : Nat} {modifiers : Modifiers} {m after : Machine}
    {fetched : Fetched} (h : (fetch allowed modifiers).run m = (.ok fetched, after)) :
    after.memory = m.memory ∧ Opcode.ofByte fetched.opcode = .instruction fetched.instruction
      ∧ m.memory.read .execute
          (FarPointer.mk after.registers.cs (after.registers.ip - 1)).linear
        = .ok fetched.opcode := by
  -- The induction is on the modifiers still allowed; the byte that counts is the last one fetched.
  induction allowed generalizing modifiers m with
  | zero =>
    unfold fetch at h
    obtain ⟨byte, between, hbyte, hrest⟩ := run_bind_eq_ok h
    obtain ⟨rfl, hread⟩ := run_fetchByte_eq_ok hbyte
    split at hrest
    case h_1 instruction hopcode =>
      cases hrest
      exact ⟨rfl, hopcode, (read_skip_one m).trans hread⟩
    case h_2 => cases hrest
  | succ allowed ih =>
    unfold fetch at h
    obtain ⟨byte, between, hbyte, hrest⟩ := run_bind_eq_ok h
    obtain ⟨rfl, hread⟩ := run_fetchByte_eq_ok hbyte
    split at hrest
    case h_1 instruction hopcode =>
      cases hrest
      exact ⟨rfl, hopcode, (read_skip_one m).trans hread⟩
    case h_2 modifier hopcode =>
      rw [run_bind_of_ok _ run_registers] at hrest
      exact ih (m := m.skip 1) hrest

end Instruction

namespace Machine

open Microprogram Instruction

variable {m : Machine}

/-- A halting step changes no memory and has just fetched the opcode of the halting
instruction. -/
theorem read_halt_of_step (h : m.step.1 = .halted) :
    m.step.2.memory = m.memory
      ∧ m.memory.read .execute
          (FarPointer.mk m.step.2.registers.cs (m.step.2.registers.ip - 1)).linear
        = .ok Opcode.halt := by
  unfold step at h ⊢
  split at h
  case h_1 after hrun =>
    unfold fetchAndPerform at hrun
    obtain ⟨⟨opcode, instruction, modifiers⟩, between, hfetch, hrest⟩ := run_bind_eq_ok hrun
    obtain ⟨hmemory, hopcode, hread⟩ := run_fetch_eq_ok hfetch
    obtain ⟨⟨⟩, last, hperform, hdone⟩ := run_bind_eq_ok hrest
    obtain ⟨hhalts, rfl⟩ := Prod.mk.inj hdone
    have hhalt : instruction = .halt := beq_iff_eq.mp (Except.ok.inj hhalts)
    subst hhalt
    -- The halting instruction itself does nothing.
    obtain rfl : between = last := (Prod.mk.inj hperform).2
    exact ⟨hmemory, hread.trans (congrArg Except.ok (Opcode.eq_halt_of_ofByte hopcode))⟩
  case h_2 => cases h
  case h_3 => cases h

end Machine

end CmStream
