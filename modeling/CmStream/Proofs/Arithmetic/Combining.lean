import CmStream.Proofs.Arithmetic.Sums
import CmStream.Proofs.Machine.Sight
import CmStream.Proofs.Machine.Synonyms
import CmStream.Proofs.Memory.Laws

/-!
# Steps that combine two operands

Whatever the encoding, a step that combines two operands leaves the flags of the operation behind
and its result where the first operand was, and goes on behind the instruction.
-/

namespace CmStream

open Encoding Instruction Microprogram

namespace Arithmetic.Operation

theorem ofIndex_number (operation : Operation) : ofIndex operation.number = operation := by
  cases operation <;> rfl

end Arithmetic.Operation

/-! ## Results that are stored -/

namespace Registers

theorem word_setWord (r : Registers) (name : WordRegister) (value : Word) :
    (r.setWord name value).word name = value := by
  cases name <;> rfl

theorem get_set (r : Registers) (width : Width) (index : RegisterIndex)
    (value : BitVec width.bits) : (r.set width index value).get width index = value := by
  cases width with
  | word => exact r.word_setWord _ value
  | byte =>
    unfold get set byte setByte
    dsimp only
    rw [word_setWord]
    split
    case isTrue => exact Word.high_ofBytes _ _
    case isFalse => exact Word.low_ofBytes _ _

end Registers

section Stores

variable {m after other : Machine} {width : Width} {place : FarPointer} {destination : Operand}

theorem exists_slot_of_storeByte {value : Byte}
    (h : (storeByte place value).run m = (.ok (), after)) :
    ∃ slot, m.memory.locate .write place.linear = .ok slot
      ∧ after = { m with memory := m.memory.setByteAt slot value } := by
  unfold storeByte run at h
  cases hlocate : m.memory.locate .write place.linear with
  | ok slot =>
    rw [hlocate] at h
    cases h
    exact ⟨slot, rfl, rfl⟩
  | error fault =>
    rw [hlocate] at h
    cases h

theorem registers_storeData {value : BitVec width.bits}
    (h : (storeData width place value).run m = (.ok (), after)) :
    after.registers = m.registers := by
  cases width with
  | byte =>
    obtain ⟨slot, -, rfl⟩ := exists_slot_of_storeByte h
    rfl
  | word =>
    obtain ⟨⟨⟩, between, hfirst, hsecond⟩ := run_bind_eq_ok h
    obtain ⟨first, -, rfl⟩ := exists_slot_of_storeByte hfirst
    obtain ⟨second, -, rfl⟩ := exists_slot_of_storeByte hsecond
    rfl

theorem exists_locate_of_read {m : PagedMemory} {access : Access} {address : Nat} {byte : Byte}
    (h : m.read access address = .ok byte) : ∃ slot, m.locate access address = .ok slot := by
  unfold PagedMemory.read at h
  cases hlocate : m.locate access address with
  | ok slot => exact ⟨slot, rfl⟩
  | error fault =>
    rw [hlocate] at h
    cases h

section See

variable {m : PagedMemory} {access : Access} {address : Nat} {slot found : Slot}

theorem see_of_locate (h : m.locate access address = .ok slot) :
    m.see access address = m.byteAt slot := by
  unfold PagedMemory.see PagedMemory.read
  rw [h]
  rfl

theorem see_setByteAt_self (htiled : m.Tiled) (h : m.locate access address = .ok slot)
    (value : Byte) : (m.setByteAt slot value).see access address = value := by
  have hafter := h
  rw [(PagedMemory.sameShape_setByteAt m slot value).locate_eq] at hafter
  rw [see_of_locate hafter]
  exact htiled.byteAt_setByteAt_self h value

theorem see_setByteAt_of_ne (h : m.locate access address = .ok found) (hne : slot ≠ found)
    (value : Byte) : (m.setByteAt slot value).see access address = m.see access address := by
  have hafter := h
  rw [(PagedMemory.sameShape_setByteAt m slot value).locate_eq] at hafter
  rw [see_of_locate hafter, see_of_locate h]
  exact PagedMemory.byteAt_setByteAt_of_ne m value hne

end See

theorem exists_locate_of_loadByte {byte : Byte}
    (h : (loadByte .read place).run m = (.ok byte, after)) :
    ∃ slot, m.memory.locate .read place.linear = .ok slot := by
  unfold loadByte run at h
  cases hread : m.memory.read .read place.linear with
  | ok found => exact exists_locate_of_read hread
  | error fault =>
    rw [hread] at h
    cases h

/-- Data that could be read and have been stored are read afterwards. -/
theorem seeData_storeData {old value : BitVec width.bits}
    (hstore : (storeData width place value).run m = (.ok (), after)) (hbuilt : m.memory.Built)
    (hload : (loadData width place).run other = (.ok old, other))
    (hmemory : other.memory = m.memory) :
    after.memory.seeData width place = value := by
  cases width with
  | byte =>
    obtain ⟨slot, hwrite, rfl⟩ := exists_slot_of_storeByte hstore
    obtain ⟨found, hread⟩ := exists_locate_of_loadByte hload
    rw [hmemory] at hread
    obtain rfl := PagedMemory.locate_unique hwrite hread
    exact see_setByteAt_self hbuilt.tiled hread value
  | word =>
    obtain ⟨⟨⟩, between, hfirst, hsecond⟩ := run_bind_eq_ok hstore
    obtain ⟨first, hwriteFirst, rfl⟩ := exists_slot_of_storeByte hfirst
    obtain ⟨second, hwriteSecond, rfl⟩ := exists_slot_of_storeByte hsecond
    obtain ⟨lower, seen, hlower, hrest⟩ := run_bind_eq_ok hload
    obtain rfl := (seen_loadByte hlower).2
    obtain ⟨upper, seen', hupper, -⟩ := run_bind_eq_ok hrest
    obtain ⟨found, hreadFirst⟩ := exists_locate_of_loadByte hlower
    obtain ⟨found', hreadSecond⟩ := exists_locate_of_loadByte hupper
    rw [hmemory] at hreadFirst hreadSecond
    obtain rfl := PagedMemory.locate_unique hwriteFirst hreadFirst
    have honce := PagedMemory.sameShape_setByteAt m.memory first (Word.low value)
    have htiled := (hbuilt.store first (Word.low value)).tiled
    have hreadFirst' := hreadFirst
    rw [honce.locate_eq] at hreadFirst' hreadSecond
    obtain rfl := PagedMemory.locate_unique hwriteSecond hreadSecond
    have hne : second ≠ first := htiled.slot_ne hreadSecond hreadFirst'
      (PagedMemory.linear_advance_one_ne place).symm
    have hlow := (see_setByteAt_of_ne hreadFirst' hne (Word.high value)).trans
      (see_setByteAt_self hbuilt.tiled hreadFirst (Word.low value))
    have hhigh := see_setByteAt_self htiled hreadSecond (Word.high value)
    exact (congr (congrArg Word.ofBytes hlow) hhigh).trans (Word.ofBytes_low_high value)

theorem flags_storeOperand {value : BitVec width.bits}
    (h : (destination.store width value).run m = (.ok (), after)) :
    after.registers.flags = m.registers.flags := by
  cases destination with
  | register index =>
    cases h
    exact m.registers.flags_set width index value
  | memory place => exact congrArg Registers.flags (registers_storeData h)

theorem value_storeOperand {old value : BitVec width.bits}
    (hstore : (destination.store width value).run m = (.ok (), after)) (hbuilt : m.memory.Built)
    (hload : (destination.load width).run other = (.ok old, other))
    (hmemory : other.memory = m.memory) :
    destination.value width after = value := by
  cases destination with
  | register index =>
    cases hstore
    exact m.registers.get_set width index value
  | memory place => exact seeData_storeData hstore hbuilt hload hmemory

end Stores

/-! ## What combining comes to -/

/-- Settles the flags of an operation, and keeps its result if it is to be kept. -/
def Operand.combine {width : Width} (destination : Operand) (operation : Arithmetic.Operation)
    (a b : BitVec width.bits) : Microprogram Unit := do
  let value ← settle (operation.compute a b)
  if operation.keepsResult then destination.store width value

namespace Machine

variable {m : Machine} {operation : Arithmetic.Operation} {width : Width}
  {a b : BitVec width.bits} {destination : Operand}

/-- What can be loaded can be loaded wherever the instruction pointer is. -/
theorem load_past {operand : Operand} {i : Nat} {old : BitVec width.bits} {after : Machine}
    (h : (operand.load width).run (m.behindOpcode.past i) = (.ok old, after)) (count : Nat) :
    (operand.load width).run (m.behindOpcode.past count)
      = (.ok old, m.behindOpcode.past count) := by
  obtain ⟨-, rfl⟩ := seen_loadOperand h
  have hmoved := (Plain.loadOperand operand width).run_moved
    (m.behindOpcode.past count).registers.ip (m.behindOpcode.past i)
  rw [h] at hmoved
  exact hmoved

/-- An operation on what the operand byte names and a number behind it. -/
theorem exists_run_group {short : Bool} {override : Option Word}
    (hoverride : override = override? m.modifiers m.registers)
    (hnumber : ∀ value after, (fetchNumber width short).run (m.behindOpcode.past m.numberPlace)
      = (.ok value, after) → value = b ∧ ∃ count, after = m.behindOpcode.past count)
    (hchooses : field (m.tailAt 0) = operation.number)
    (hperform : (performArithmeticGroup width short override).run m.behindOpcode
      = (.ok (), m.step.2)) : ∃ count old,
      (m.formOperand.load width).run (m.behindOpcode.past count)
          = (.ok old, m.behindOpcode.past count)
        ∧ (m.formOperand.combine operation (m.formValue width) b).run (m.behindOpcode.past count)
          = (.ok (), m.step.2) := by
  unfold performArithmeticGroup at hperform
  rw [hoverride] at hperform
  obtain ⟨operands, between, hoperands, hrest⟩ := run_bind_eq_ok hperform
  obtain ⟨rfl, rfl⟩ := seen_fetchOperands hoperands
  obtain ⟨first, between, hfirst, hrest⟩ := run_bind_eq_ok hrest
  obtain ⟨rfl, rfl⟩ := seen_loadForm hfirst
  obtain ⟨second, between, hsecond, hrest⟩ := run_bind_eq_ok hrest
  obtain ⟨rfl, count, rfl⟩ := hnumber second between hsecond
  rw [hchooses, Arithmetic.Operation.ofIndex_number] at hrest
  exact ⟨count, _, load_past hfirst count, hrest⟩

/-- The lower byte of the accumulator and a number in the instruction are combined. -/
theorem combines_low {first second : Byte}
    (hbegins : m.opcode? = some (arithmetic operation.number 0x04))
    (hfirst : m.registers.byte .al = first) (hsecond : m.tailAt 0 = second) :
    m.Combines operation .byte first second (.register 0) := by
  rw [← hfirst, ← hsecond]
  exact .toAccumulator .byte hbegins

/-- A step combines the two values of the instruction in front of it, somewhere behind its bytes;
what takes the result can be read. -/
theorem Combines.exists_run (h : m.Combines operation width a b destination)
    (hcompletes : m.Completes) : ∃ count old,
      (destination.load width).run (m.behindOpcode.past count)
          = (.ok old, m.behindOpcode.past count)
        ∧ (destination.combine operation a b).run (m.behindOpcode.past count)
          = (.ok (), m.step.2) := by
  cases h with
  | toForm _ begins =>
    obtain ⟨modifiers, hoverride, hperform⟩ := exists_performed_of_ofByte hcompletes begins
      (ofByte_arithmetic operation.number width).1
    rw [Arithmetic.Operation.ofIndex_number] at hperform
    unfold perform performArithmetic at hperform
    dsimp only at hperform
    rw [hoverride] at hperform
    obtain ⟨operands, between, hoperands, hrest⟩ := run_bind_eq_ok hperform
    obtain ⟨rfl, rfl⟩ := seen_fetchOperands hoperands
    obtain ⟨first, between, hfirst, hrest⟩ := run_bind_eq_ok hrest
    obtain ⟨rfl, rfl⟩ := seen_loadForm hfirst
    obtain ⟨second, between, hsecond, hrest⟩ := run_bind_eq_ok hrest
    cases hsecond
    rw [get_behindOpcode] at hrest
    exact ⟨_, _, hfirst, hrest⟩
  | toField _ begins =>
    obtain ⟨modifiers, hoverride, hperform⟩ := exists_performed_of_ofByte hcompletes begins
      (ofByte_arithmetic operation.number width).2.1
    rw [Arithmetic.Operation.ofIndex_number] at hperform
    unfold perform performArithmetic at hperform
    dsimp only at hperform
    rw [hoverride] at hperform
    obtain ⟨operands, between, hoperands, hrest⟩ := run_bind_eq_ok hperform
    obtain ⟨rfl, rfl⟩ := seen_fetchOperands hoperands
    obtain ⟨first, between, hfirst, hrest⟩ := run_bind_eq_ok hrest
    cases hfirst
    obtain ⟨second, between, hsecond, hrest⟩ := run_bind_eq_ok hrest
    obtain ⟨rfl, rfl⟩ := seen_loadForm hsecond
    rw [get_behindOpcode] at hrest
    exact ⟨_, _, rfl, hrest⟩
  | toAccumulator _ begins =>
    obtain ⟨modifiers, -, hperform⟩ := exists_performed_of_ofByte hcompletes begins
      (ofByte_arithmetic operation.number width).2.2
    rw [Arithmetic.Operation.ofIndex_number] at hperform
    unfold perform performArithmetic at hperform
    dsimp only at hperform
    obtain ⟨first, between, hfirst, hrest⟩ := run_bind_eq_ok hperform
    cases hfirst
    obtain ⟨second, between, hsecond, hrest⟩ := run_bind_eq_ok hrest
    rw [← past_zero m.behindOpcode] at hsecond hrest
    obtain ⟨rfl, count, rfl⟩ := seen_fetchNumber hsecond
    rw [get_behindOpcode] at hrest
    exact ⟨_, _, rfl, hrest⟩
  | group _ begins chooses =>
    have hgroup : Opcode.ofByte (wide 0x80 width)
        = .instruction (.arithmeticGroup width false) := by
      cases width <;> rfl
    obtain ⟨modifiers, hoverride, hperform⟩ := exists_performed_of_ofByte hcompletes begins hgroup
    exact exists_run_group hoverride (fun _ _ => seen_fetchNumber) chooses hperform
  | groupAgain begins chooses =>
    obtain ⟨modifiers, hoverride, hperform⟩ := exists_performed_of_ofByte hcompletes begins
      (show Opcode.ofByte 0x82 = .instruction (.arithmeticGroup .byte false) from rfl)
    exact exists_run_group hoverride (fun _ _ => seen_fetchNumber) chooses hperform
  | short begins chooses =>
    obtain ⟨modifiers, hoverride, hperform⟩ := exists_performed_of_ofByte hcompletes begins
      (show Opcode.ofByte 0x83 = .instruction (.arithmeticGroup .word true) from rfl)
    refine exists_run_group hoverride (fun value after hfetch => ?_) chooses hperform
    obtain ⟨rfl, rfl⟩ := seen_fetchSigned hfetch
    rw [nextByte_behindOpcode_past]
    exact ⟨rfl, _, (past_add _ 1 _).symm⟩

/-- The flags that a step leaves behind are those of the operation. -/
theorem Combines.flags_step (h : m.Combines operation width a b destination)
    (hcompletes : m.Completes) :
    m.step.2.registers.flags = (operation.compute a b m.registers.flags).flags := by
  obtain ⟨count, old, -, hrun⟩ := h.exists_run hcompletes
  obtain ⟨value, between, hsettle, hrest⟩ := run_bind_eq_ok hrun
  cases hsettle
  split at hrest
  case isTrue => exact flags_storeOperand hrest
  case isFalse =>
    have hsame := congrArg Prod.snd hrest
    rw [← hsame]
    rfl

/-- The result of an operation that keeps it is found where the first operand was. -/
theorem Combines.value_step (h : m.Combines operation width a b destination)
    (hcompletes : m.Completes) (hbuilt : m.memory.Built) (hkeeps : operation.keepsResult = true) :
    destination.value width m.step.2 = (operation.compute a b m.registers.flags).value := by
  obtain ⟨count, old, hload, hrun⟩ := h.exists_run hcompletes
  obtain ⟨value, between, hsettle, hrest⟩ := run_bind_eq_ok hrun
  cases hsettle
  rw [if_pos hkeeps] at hrest
  exact value_storeOperand hrest hbuilt hload rfl

/-- A result that goes to a register is found there. -/
theorem Combines.get_step {index : RegisterIndex}
    (h : m.Combines operation width a b (.register index)) (hcompletes : m.Completes)
    (hkeeps : operation.keepsResult = true) :
    m.step.2.registers.get width index = (operation.compute a b m.registers.flags).value := by
  obtain ⟨count, old, -, hrun⟩ := h.exists_run hcompletes
  obtain ⟨value, between, hsettle, hrest⟩ := run_bind_eq_ok hrun
  cases hsettle
  rw [if_pos hkeeps] at hrest
  have hstored := congrArg Prod.snd hrest
  rw [← hstored]
  exact Registers.get_set _ width index _

end Machine

end CmStream
