import CmStream.Machine.Step
import CmStream.Proofs.Memory.Slots

/-!
# Following a microprogram

What single effects come to when nothing is refused, and how a program goes on behind a part that
has succeeded. With these, an instruction is followed effect by effect.
-/

namespace CmStream

namespace Microprogram

variable {α β : Type} {m after : Machine}

/-- Behind a part that has succeeded, a program goes on with the value and the machine of that
part. -/
theorem run_bind_of_ok {p : Microprogram α} {value : α} (f : α → Microprogram β)
    (h : p.run m = (.ok value, after)) : (p >>= f).run m = (f value).run after := by
  rw [run_bind, h]

/-- What a sequence of two parts has succeeded with: both parts, one after the other. -/
theorem run_bind_eq_ok {p : Microprogram α} {f : α → Microprogram β} {value : β}
    (h : (p >>= f).run m = (.ok value, after)) :
    ∃ middle between, p.run m = (.ok middle, between)
      ∧ (f middle).run between = (.ok value, after) := by
  rw [run_bind] at h
  split at h
  case h_1 middle between heq => exact ⟨middle, between, heq, h⟩
  case h_2 => cases h

@[simp] theorem run_registers : registers.run m = (.ok m.registers, m) := rfl

@[simp] theorem run_setRegisters (r : Registers) :
    (setRegisters r).run m = (.ok (), { m with registers := r }) := rfl

@[simp] theorem run_modifyRegisters (change : Registers → Registers) :
    (modifyRegisters change).run m = (.ok (), { m with registers := change m.registers }) := rfl

theorem run_loadByte {access : Access} {place : FarPointer} {byte : Byte}
    (reads : access ≠ .write) (h : m.memory.read access place.linear = .ok byte) :
    (loadByte access place reads).run m = (.ok byte, m) := by
  unfold loadByte
  rw [run, h]
  rfl

theorem run_storeByte {place : FarPointer} {slot : Slot} (value : Byte)
    (h : m.memory.locate .write place.linear = .ok slot) :
    (storeByte place value).run m
      = (.ok (), { m with memory := m.memory.setByteAt slot value }) := by
  unfold storeByte
  rw [run, h]
  rfl

theorem run_loadWord {place : FarPointer} {first second : Byte}
    (hfirst : m.memory.read .read place.linear = .ok first)
    (hsecond : m.memory.read .read (place.advance 1).linear = .ok second) :
    (loadWord place).run m = (.ok (Word.ofBytes first second), m) := by
  unfold loadWord
  rw [run_bind_of_ok _ (run_loadByte (by decide) hfirst),
    run_bind_of_ok _ (run_loadByte (by decide) hsecond)]
  rfl

theorem run_storeWord {r : Registers} {memory : PagedMemory} {place : FarPointer}
    {first second : Slot} (value : Word) (hfirst : memory.locate .write place.linear = .ok first)
    (hsecond : memory.locate .write (place.advance 1).linear = .ok second) :
    (storeWord place value).run ⟨r, memory⟩
      = (.ok (), ⟨r, (memory.setByteAt first (Word.low value)).setByteAt second
          (Word.high value)⟩) := by
  rw [(PagedMemory.sameShape_setByteAt memory first (Word.low value)).locate_eq] at hsecond
  unfold storeWord
  rw [run_bind_of_ok _ (run_storeByte _ hfirst), run_storeByte _ hsecond]

end Microprogram

namespace FarPointer

theorem advance_zero (p : FarPointer) : p.advance (BitVec.ofNat 16 0) = p := by
  unfold advance
  rw [BitVec.add_zero]

theorem advance_advance (p : FarPointer) (n k : Word) :
    (p.advance n).advance k = p.advance (n + k) := by
  unfold advance
  rw [BitVec.add_assoc]

theorem advance_succ (p : FarPointer) (i : Nat) :
    p.advance (BitVec.ofNat 16 (i + 1)) = (p.advance 1).advance (BitVec.ofNat 16 i) := by
  unfold advance
  rw [BitVec.add_assoc, Nat.add_comm i 1, BitVec.ofNat_add]
  rfl

end FarPointer

/-! ## Fetching -/

namespace Machine

variable {m : Machine}

/-- The machine with its instruction pointer moved on. -/
def skip (n : Word) (m : Machine) : Machine :=
  { m with registers := { m.registers with ip := m.registers.ip + n } }

/-- The bytes at the instruction pointer, all of them executable. -/
def Faces (m : Machine) (code : List Byte) : Prop :=
  ∀ i, (hi : i < code.length) →
    m.memory.read .execute (m.registers.codePointer.advance (BitVec.ofNat 16 i)).linear
      = .ok code[i]

theorem Faces.head {byte : Byte} {code : List Byte} (h : m.Faces (byte :: code)) :
    m.memory.read .execute m.registers.codePointer.linear = .ok byte := by
  have hfirst := h 0 (Nat.succ_pos _)
  rw [FarPointer.advance_zero] at hfirst
  exact hfirst

theorem Faces.tail {byte : Byte} {code : List Byte} (h : m.Faces (byte :: code)) :
    (m.skip 1).Faces code := by
  intro i hi
  have hnext := h (i + 1) (Nat.succ_lt_succ hi)
  rw [FarPointer.advance_succ] at hnext
  exact hnext

/-- What lies in front of a machine depends on its memory and its place alone. -/
theorem Faces.of_eq {other : Machine} {code : List Byte} (h : m.Faces code)
    (hmemory : other.memory = m.memory)
    (hplace : other.registers.codePointer = m.registers.codePointer) : other.Faces code := by
  unfold Faces
  rw [hmemory, hplace]
  exact h

end Machine

namespace Microprogram

open Machine

variable {m : Machine}

theorem run_fetchByte {byte : Byte} {code : List Byte} (h : m.Faces (byte :: code)) :
    fetchByte.run m = (.ok byte, m.skip 1) := by
  unfold fetchByte
  rw [run_bind_of_ok _ run_registers, run_bind_of_ok _ (run_loadByte (by decide) h.head)]
  rfl

end Microprogram

namespace Instruction

open Machine Microprogram

variable {m after : Machine}

theorem run_fetch_instruction {byte : Byte} {code : List Byte} {instruction : Instruction}
    (allowed : Nat) (modifiers : Modifiers) (hface : m.Faces (byte :: code))
    (hopcode : Opcode.ofByte byte = .instruction instruction) :
    (fetch allowed modifiers).run m = (.ok ⟨byte, instruction, modifiers⟩, m.skip 1) := by
  rw [fetch, run_bind_of_ok _ (run_fetchByte hface), hopcode]
  rfl

theorem run_fetch_modifier {byte : Byte} {code : List Byte} {modifier : Modifier}
    (allowed : Nat) (modifiers : Modifiers) (hface : m.Faces (byte :: code))
    (hopcode : Opcode.ofByte byte = .modifier modifier) :
    (fetch (allowed + 1) modifiers).run m
      = (fetch allowed (modifiers.add modifier (m.skip 1).registers)).run (m.skip 1) := by
  rw [fetch, run_bind_of_ok _ (run_fetchByte hface), hopcode]
  rfl

end Instruction

namespace Machine

open Instruction

variable {m middle last : Machine}

/-- A step is the fetch of an instruction and what the instruction does. -/
theorem step_of_perform {fetched : Fetched}
    (hfetch : (fetch maxModifiers Modifiers.none).run m = (.ok fetched, middle))
    (hperform : (fetched.instruction.perform fetched.opcode fetched.modifiers).run middle
      = (.ok (), last)) :
    m.step = (if fetched.instruction = .halt then .halted else .continued, last) := by
  have hrun : fetchAndPerform.run m = (.ok (fetched.instruction == .halt), last) := by
    unfold fetchAndPerform
    rw [Microprogram.run_bind_of_ok _ hfetch, Microprogram.run_bind_of_ok _ hperform]
    rfl
  unfold step
  rw [hrun]
  by_cases hhalt : fetched.instruction = .halt
  · rw [if_pos hhalt, beq_iff_eq.mpr hhalt]
  · rw [if_neg hhalt, beq_eq_false_iff_ne.mpr hhalt]

/-- A step that gives up leaves the machine as it is then. -/
theorem step_eq_stopped {cause : Cause} (h : fetchAndPerform.run m = (.error cause, last)) :
    m.step = (.stopped (.gaveUp m.registers.codePointer cause), last) := by
  unfold step
  rw [h]

/-- A step whose instruction gives up once it has been fetched. -/
theorem step_of_perform_error {fetched : Fetched} {cause : Cause}
    (hfetch : (fetch maxModifiers Modifiers.none).run m = (.ok fetched, middle))
    (hperform : (fetched.instruction.perform fetched.opcode fetched.modifiers).run middle
      = (.error cause, last)) :
    m.step = (.stopped (.gaveUp m.registers.codePointer cause), last) := by
  refine step_eq_stopped ?_
  unfold fetchAndPerform
  rw [Microprogram.run_bind_of_ok _ hfetch, Microprogram.run_bind, hperform]

/-- The step of an instruction without modifiers. -/
theorem step_of_faces {byte : Byte} {code : List Byte} {instruction : Instruction}
    (hface : m.Faces (byte :: code)) (hopcode : Opcode.ofByte byte = .instruction instruction)
    (hperform : (instruction.perform byte Modifiers.none).run (m.skip 1) = (.ok (), last)) :
    m.step = (if instruction = .halt then .halted else .continued, last) :=
  step_of_perform (run_fetch_instruction _ _ hface hopcode) hperform

/-- The step of an instruction with one modifier. -/
theorem step_of_faces_modified {first byte : Byte} {code : List Byte} {modifier : Modifier}
    {instruction : Instruction} (hface : m.Faces (first :: byte :: code))
    (hfirst : Opcode.ofByte first = .modifier modifier)
    (hopcode : Opcode.ofByte byte = .instruction instruction)
    (hperform : (instruction.perform byte
      (Modifiers.none.add modifier (m.skip 1).registers)).run ((m.skip 1).skip 1)
      = (.ok (), last)) :
    m.step = (if instruction = .halt then .halted else .continued, last) := by
  have hfetch : (fetch maxModifiers Modifiers.none).run m
      = (.ok ⟨byte, instruction, Modifiers.none.add modifier (m.skip 1).registers⟩,
        (m.skip 1).skip 1) := by
    unfold maxModifiers
    rw [run_fetch_modifier _ _ hface hfirst, run_fetch_instruction _ _ hface.tail hopcode]
  exact step_of_perform hfetch hperform

end Machine

end CmStream
