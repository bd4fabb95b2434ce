import CmStream.Machine.Combining
import CmStream.Proofs.Machine.Lengths
import CmStream.Proofs.Machine.OpenMemory

/-!
# What a step that completes has seen

Where no access was refused, it makes no difference whether memory would have refused others. So a
step that completes has seen the same modifiers, opcode and operands in front of the machine as on
an open memory.
-/

namespace CmStream

namespace Microprogram

open Machine Instruction

variable {m after : Machine} {width : Width} {place : FarPointer}

theorem seen_fetchByte {byte : Byte} (h : fetchByte.run m = (.ok byte, after)) :
    byte = m.nextByte ∧ after = m.past 1 := by
  obtain ⟨hface, hafter⟩ := fetchByte_eq_ok h
  exact ⟨hface.nextByte_eq.symm, hafter⟩

theorem seen_fetchSigned {value : Word} (h : fetchSigned.run m = (.ok value, after)) :
    value = m.nextByte.signExtend 16 ∧ after = m.past 1 := by
  obtain ⟨byte, between, hbyte, hrest⟩ := run_bind_eq_ok h
  obtain ⟨rfl, rfl⟩ := seen_fetchByte hbyte
  cases hrest
  exact ⟨rfl, rfl⟩

theorem seen_fetchWord {value : Word} (h : fetchWord.run m = (.ok value, after)) :
    value = Word.ofBytes m.nextByte (m.past 1).nextByte ∧ after = m.past 2 := by
  obtain ⟨first, between, hfirst, hrest⟩ := run_bind_eq_ok h
  obtain ⟨rfl, rfl⟩ := seen_fetchByte hfirst
  obtain ⟨second, between, hsecond, hrest⟩ := run_bind_eq_ok hrest
  obtain ⟨rfl, rfl⟩ := seen_fetchByte hsecond
  cases hrest
  exact ⟨rfl, (past_add 1 1 m).symm⟩

theorem seen_loadByte {byte : Byte} (h : (loadByte .read place).run m = (.ok byte, after)) :
    byte = m.memory.see .read place.linear ∧ after = m := by
  unfold loadByte run at h
  unfold PagedMemory.see
  cases hread : m.memory.read .read place.linear with
  | ok found =>
    rw [hread] at h
    cases h
    exact ⟨rfl, rfl⟩
  | error fault =>
    rw [hread] at h
    cases h

theorem seen_loadData {value : BitVec width.bits}
    (h : (loadData width place).run m = (.ok value, after)) :
    value = m.memory.seeData width place ∧ after = m := by
  cases width with
  | byte => exact seen_loadByte h
  | word =>
    obtain ⟨first, between, hfirst, hrest⟩ := run_bind_eq_ok h
    obtain ⟨rfl, rfl⟩ := seen_loadByte hfirst
    obtain ⟨second, between, hsecond, hrest⟩ := run_bind_eq_ok hrest
    obtain ⟨rfl, rfl⟩ := seen_loadByte hsecond
    cases hrest
    exact ⟨rfl, rfl⟩

theorem seen_loadOperand {operand : Operand} {value : BitVec width.bits}
    (h : (operand.load width).run m = (.ok value, after)) :
    value = operand.value width m ∧ after = m := by
  cases operand with
  | register index =>
    cases h
    exact ⟨rfl, rfl⟩
  | memory place => exact seen_loadData h

theorem seen_fetchDisplacement {byte : Byte} {displacement : Word}
    (hmemory : (OperandByte.ofByte byte).namesRegister = false)
    (h : (OperandByte.ofByte byte).fetchDisplacement.run m = (.ok displacement, after)) :
    displacement = Encoding.distance
        ((List.range (Encoding.displacementLength byte)).map fun i => (m.past i).nextByte)
      ∧ after = m.past (Encoding.displacementLength byte) := by
  rw [Instruction.displacementLength_eq, hmemory, if_neg Bool.false_ne_true]
  unfold OperandByte.fetchDisplacement at h
  split at h
  case isTrue hword =>
    rw [if_pos hword]
    obtain ⟨rfl, rfl⟩ := seen_fetchWord h
    refine ⟨?_, rfl⟩
    simp only [List.range_succ_eq_map, List.range_zero, List.map_cons, List.map_nil, past_zero]
    rfl
  case isFalse hword =>
    rw [if_neg hword]
    split at h
    case isTrue hbyte =>
      rw [if_pos hbyte]
      obtain ⟨rfl, rfl⟩ := seen_fetchSigned h
      refine ⟨?_, rfl⟩
      simp only [List.range_succ_eq_map, List.range_zero, List.map_cons, List.map_nil, past_zero]
      rfl
    case isFalse hbyte =>
      rw [if_neg hbyte]
      cases h
      exact ⟨rfl, (past_zero m).symm⟩

end Microprogram

namespace Machine

open Encoding Instruction Microprogram

variable {m after : Machine} {opcode : Byte} {code : List Byte}

/-! ## Modifiers and the opcode -/

theorem map_codeAt_of_faces (hface : m.Faces code) :
    (List.range code.length).map m.codeAt = code := by
  refine List.ext_getElem (by rw [List.length_map, List.length_range]) fun i _ hi => ?_
  rw [List.getElem_map, List.getElem_range]
  unfold codeAt PagedMemory.see
  rw [hface i hi]

/-- The modifiers in front of the machine are those in front of the opcode. -/
theorem modifiers_of_faces (hface : m.Faces (code ++ [opcode]))
    (hmodify : ∀ byte ∈ code, isModifier byte = true) (hproper : isModifier opcode = false)
    (hfew : code.length ≤ Encoding.maxModifiers) :
    m.modifiers = code ∧ m.opcode? = some opcode := by
  have hshown := map_codeAt_of_faces hface
  have hmodifiers : m.modifiers = code := by
    obtain ⟨more, hmore⟩ : ∃ more,
        Encoding.maxModifiers + 1 = (code ++ [opcode]).length + more := by
      refine ⟨Encoding.maxModifiers - code.length, ?_⟩
      rw [List.length_append, List.length_singleton]
      omega
    unfold modifiers
    rw [hmore, List.range_add, List.map_append, hshown, List.append_assoc,
      List.takeWhile_append_of_pos hmodify, List.singleton_append,
      List.takeWhile_cons_of_neg (by rw [hproper]; exact Bool.false_ne_true), List.append_nil]
  refine ⟨hmodifiers, opcode?_eq_some_iff.mpr ?_⟩
  rw [hmodifiers]
  refine ⟨hfew, ?_⟩
  rw [List.length_append, List.length_singleton, List.range_succ, List.map_append] at hshown
  exact List.singleton_inj.mp (List.append_inj_right' hshown rfl)

/-- An instruction that has been fetched is the one that the bytes in front of the machine show. -/
theorem seen_fetch {fetched : Fetched}
    (h : (fetch Instruction.maxModifiers Modifiers.none).run m = (.ok fetched, after)) :
    m.opcode? = some fetched.opcode
      ∧ Opcode.ofByte fetched.opcode = .instruction fetched.instruction
      ∧ fetched.modifiers = gather Modifiers.none m.registers m.modifiers
      ∧ after = m.behindOpcode := by
  obtain ⟨code, hfew, hmodify, hopcode, hface⟩ := exists_of_fetch_eq_ok h
  obtain ⟨hmodifiers, hseen⟩ := modifiers_of_faces hface hmodify
    (isModifier_of_instruction hopcode) hfew
  have hgather := h.symm.trans (run_fetch_gather Modifiers.none hface hmodify hfew hopcode)
  have hfetched := Except.ok.inj (congrArg Prod.fst hgather)
  have hafter : after = m.past (code.length + 1) := congrArg Prod.snd hgather
  unfold behindOpcode
  rw [hmodifiers]
  exact ⟨hseen, hopcode, congrArg Fetched.modifiers hfetched, hafter⟩

/-- The last override is the one that counts. -/
theorem override_gather_modifiers (m : Machine) :
    (gather Modifiers.none m.registers m.modifiers).override
      = override? m.modifiers m.registers := by
  rw [override_gather]
  exact Option.or_none

/-- What a step that completes has fetched, it has performed to the end. -/
theorem exists_performed (hcompletes : m.Completes) (hbegins : m.opcode? = some opcode) :
    ∃ instruction modifiers, Opcode.ofByte opcode = .instruction instruction
      ∧ modifiers.override = override? m.modifiers m.registers
      ∧ (instruction.perform opcode modifiers).run m.behindOpcode = (.ok (), m.step.2) := by
  obtain ⟨halts, hrun⟩ := exists_of_completes hcompletes
  obtain ⟨⟨found, instruction, modifiers⟩, between, hfetch, hrest⟩ := run_bind_eq_ok hrun
  obtain ⟨hseen, hopcode, rfl, rfl⟩ := seen_fetch hfetch
  obtain rfl : found = opcode := Option.some.inj (hseen.symm.trans hbegins)
  obtain ⟨⟨⟩, between, hperform, hlast⟩ := run_bind_eq_ok hrest
  cases hlast
  exact ⟨instruction, _, hopcode, override_gather_modifiers m, hperform⟩

theorem exists_performed_of_ofByte {instruction : Instruction} (hcompletes : m.Completes)
    (hbegins : m.opcode? = some opcode)
    (hopcode : Opcode.ofByte opcode = .instruction instruction) :
    ∃ modifiers : Modifiers, modifiers.override = override? m.modifiers m.registers
      ∧ (instruction.perform opcode modifiers).run m.behindOpcode = (.ok (), m.step.2) := by
  obtain ⟨found, modifiers, hfound, hoverride, hperform⟩ := exists_performed hcompletes hbegins
  cases hopcode.symm.trans hfound
  exact ⟨modifiers, hoverride, hperform⟩

/-! ## Operands -/

theorem value_formOperand (m : Machine) (width : Width) :
    m.formOperand.value width m = m.formValue width := by
  unfold formOperand formValue
  split <;> rfl

theorem seen_fetchOperands {operands : Operands}
    (h : (Operands.fetch (override? m.modifiers m.registers)).run m.behindOpcode
      = (.ok operands, after)) :
    operands = ⟨field (m.tailAt 0), m.formOperand⟩
      ∧ after = m.behindOpcode.past m.numberPlace := by
  have hrest (i : Nat) : ((m.behindOpcode.past 1).past i).nextByte = m.tailAt (i + 1) := by
    rw [← past_add, Nat.add_comm 1 i, nextByte_behindOpcode_past]
  obtain ⟨byte, between, hbyte, h⟩ := run_bind_eq_ok h
  obtain ⟨rfl, rfl⟩ := seen_fetchByte hbyte
  rw [nextByte_behindOpcode] at h
  unfold formOperand numberPlace
  rw [namesRegister_eq]
  cases hnamed : (OperandByte.ofByte (m.tailAt 0)).namesRegister with
  | true =>
    rw [Instruction.displacementLength_eq, if_pos hnamed, if_pos rfl]
    simp only [hnamed, if_true] at h
    cases h
    exact ⟨rfl, rfl⟩
  | false =>
    simp only [hnamed, Bool.false_eq_true, if_false] at h ⊢
    obtain ⟨displacement, between, hdisplacement, h⟩ := run_bind_eq_ok h
    obtain ⟨rfl, rfl⟩ := seen_fetchDisplacement hnamed hdisplacement
    rw [run_bind_of_ok _ run_registers, ← past_add] at h
    unfold formPlace
    simp only [hrest, base_behindOpcode, segment_behindOpcode] at h
    rcases (OperandByte.ofByte (m.tailAt 0)).base m.registers with ⟨base, segment⟩
    cases h
    exact ⟨rfl, rfl⟩

theorem seen_loadForm {width : Width} {count : Nat} {value : BitVec width.bits}
    (h : (m.formOperand.load width).run (m.behindOpcode.past count) = (.ok value, after)) :
    value = m.formValue width ∧ after = m.behindOpcode.past count := by
  obtain ⟨rfl, rfl⟩ := seen_loadOperand h
  refine ⟨?_, rfl⟩
  rw [← value_formOperand]
  cases m.formOperand with
  | register index => exact get_behindOpcode m count width index
  | memory place => rfl

/-- The number that lies some bytes behind the opcode. -/
theorem seen_fetchNumber {width : Width} {i : Nat} {value : BitVec width.bits}
    (h : (fetchNumber width false).run (m.behindOpcode.past i) = (.ok value, after)) :
    value = m.numberAt width i ∧ ∃ count, after = m.behindOpcode.past count := by
  cases width with
  | byte =>
    obtain ⟨rfl, rfl⟩ := seen_fetchByte h
    exact ⟨nextByte_behindOpcode_past m i, i + 1, (past_add i 1 _).symm⟩
  | word =>
    obtain ⟨rfl, rfl⟩ := seen_fetchWord h
    refine ⟨?_, i + 2, (past_add i 2 _).symm⟩
    rw [← past_add, nextByte_behindOpcode_past, nextByte_behindOpcode_past]
    rfl

end Machine

end CmStream
