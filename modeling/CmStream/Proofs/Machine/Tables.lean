import CmStream.Proofs.Machine.Extents

/-!
# The tables of encodings and the opcode map

The tables of `Encoding` go by the bytes of an instruction, the opcode map by what they stand for.
The two agree on every byte. Only here all bytes are gone through one by one.
-/

namespace CmStream

namespace Opcode

theorem toList_map : map.toList = rows := by
  unfold map Vector.toList
  exact List.toList_toArray

theorem getElem?_rows (byte : Byte) : rows[byte.toNat]? = some (ofByte byte) := by
  have hentry : ∀ (entries : Vector Opcode 256) (i : Fin 256),
      entries.toList[i.val]? = some (entries.get i) := by
    intro entries i
    rw [Vector.getElem?_toList, Vector.getElem?_eq_getElem i.isLt]
    rfl
  rw [← toList_map]
  exact hentry map byte.toFin

/-- To go through all bytes is to go through the rows of the map once. -/
theorem forall_ofByte {P : Byte → Opcode → Bool}
    (h : (rows.zipIdx.all fun (entry, i) => P (BitVec.ofNat 8 i) entry) = true) (byte : Byte) :
    P byte (ofByte byte) = true := by
  have hentry := List.all_eq_true.mp h (ofByte byte, byte.toNat)
    (List.mk_mem_zipIdx_iff_getElem?.mpr (getElem?_rows byte))
  dsimp only at hentry
  rwa [BitVec.ofNat_toNat, BitVec.setWidth_eq] at hentry

end Opcode

namespace Instruction

open Machine Microprogram

/-- The opcode of a jump, a call or a loop over a distance. -/
def relativeOpcode : Instruction → Byte
  | jumpIf condition negated =>
    let first : Byte := match condition with
      | .overflow => 0x70
      | .carry => 0x72
      | .zero => 0x74
      | .carryOrZero => 0x76
      | .sign => 0x78
      | .parity => 0x7a
      | .less => 0x7c
      | .lessOrEqual => 0x7e
    if negated then first + 1 else first
  | loop .whileNotEqual => 0xe0
  | loop .whileEqual => 0xe1
  | loop .always => 0xe2
  | jumpIfCounterZero => 0xe3
  | call => 0xe8
  | jump false => 0xe9
  | jump true => 0xeb
  | _ => 0

/-- Does an instruction read behind its opcode, and transfer control, as the tables say? -/
def agreesLength (opcode : Byte) (instruction : Instruction) : Bool :=
  Encoding.namesOperands opcode == instruction.namesOperands
    && decide (∀ field, Encoding.numberLength opcode field = instruction.numberLength field
      ∧ Encoding.isTransfer opcode field = instruction.transfers field)

/-- Does the map agree with the tables on an opcode? Instructions that the machine lacks read
nothing behind their opcodes. -/
def agrees (opcode : Byte) : Opcode → Bool
  | .modifier _ => Encoding.isModifier opcode
  | .instruction instruction =>
    !Encoding.isModifier opcode
      && (instruction == .unsupported || instruction == .undefined
        || instruction.agreesLength opcode)
      && (!Encoding.isRelative opcode || instruction.relativeOpcode == opcode)

theorem agrees_ofByte : ∀ opcode, agrees opcode (Opcode.ofByte opcode) = true :=
  Opcode.forall_ofByte (by decide +kernel)

section Agrees

variable {opcode : Byte} {instruction : Instruction}

theorem isModifier_of_modifier {modifier : Modifier}
    (hopcode : Opcode.ofByte opcode = .modifier modifier) :
    Encoding.isModifier opcode = true := by
  have hagrees := agrees_ofByte opcode
  rwa [hopcode] at hagrees

/-- What agreement comes to for an instruction. -/
theorem agrees_instruction (hopcode : Opcode.ofByte opcode = .instruction instruction) :
    (Encoding.isModifier opcode = false
      ∧ ((instruction = .unsupported ∨ instruction = .undefined)
        ∨ instruction.agreesLength opcode = true))
      ∧ (Encoding.isRelative opcode = false ∨ instruction.relativeOpcode = opcode) := by
  have hagrees := agrees_ofByte opcode
  simpa only [hopcode, agrees, Bool.and_eq_true, Bool.or_eq_true, Bool.not_eq_true',
    beq_iff_eq] using hagrees

theorem isModifier_of_instruction (hopcode : Opcode.ofByte opcode = .instruction instruction) :
    Encoding.isModifier opcode = false :=
  (agrees_instruction hopcode).1.1

theorem exists_modifier (h : Encoding.isModifier opcode = true) :
    ∃ modifier, Opcode.ofByte opcode = .modifier modifier := by
  cases hopcode : Opcode.ofByte opcode with
  | modifier modifier => exact ⟨modifier, rfl⟩
  | instruction instruction =>
    rw [isModifier_of_instruction hopcode] at h
    cases h

theorem exists_instruction (h : Encoding.isModifier opcode = false) :
    ∃ instruction, Opcode.ofByte opcode = .instruction instruction := by
  cases hopcode : Opcode.ofByte opcode with
  | modifier modifier =>
    rw [isModifier_of_modifier hopcode] at h
    cases h
  | instruction instruction => exact ⟨instruction, rfl⟩

theorem tables_eq (hopcode : Opcode.ofByte opcode = .instruction instruction)
    (hsupported : instruction ≠ .unsupported) (hdefined : instruction ≠ .undefined) :
    Encoding.namesOperands opcode = instruction.namesOperands
      ∧ ∀ field, Encoding.numberLength opcode field = instruction.numberLength field
        ∧ Encoding.isTransfer opcode field = instruction.transfers field := by
  have hagrees := (agrees_instruction hopcode).1.2.resolve_left
    (not_or.mpr ⟨hsupported, hdefined⟩)
  simpa only [agreesLength, Bool.and_eq_true, beq_iff_eq, decide_eq_true_eq] using hagrees

theorem relativeOpcode_eq (hrelative : Encoding.isRelative opcode = true)
    (hopcode : Opcode.ofByte opcode = .instruction instruction) :
    instruction.relativeOpcode = opcode := by
  refine (agrees_instruction hopcode).2.resolve_left ?_
  rw [hrelative]
  exact Bool.noConfusion

end Agrees

/-- What comes to an end is neither of the two instructions that only give up. -/
theorem supported_of_run_eq_ok {instruction : Instruction} {opcode : Byte} {modifiers : Modifiers}
    {m after : Machine} (h : (instruction.perform opcode modifiers).run m = (.ok (), after)) :
    instruction ≠ .unsupported ∧ instruction ≠ .undefined := by
  constructor
  · rintro rfl
    cases h
  · rintro rfl
    cases h

/-! ## The tables by themselves -/

/-- Without a byte that names operands, there is no field to depend on. -/
theorem of_not_namesOperands : ∀ opcode, Encoding.namesOperands opcode = false → ∀ field,
    Encoding.numberLength opcode field = Encoding.numberLength opcode 0
      ∧ Encoding.isTransfer opcode field = Encoding.isTransfer opcode 0
      ∧ Encoding.isNearCall opcode field = Encoding.isNearCall opcode 0
      ∧ Encoding.isFarCall opcode field = Encoding.isFarCall opcode 0 := by
  decide

theorem namesOperands_of_isRelative (opcode : Byte) (h : Encoding.isRelative opcode = true) :
    Encoding.namesOperands opcode = false := by
  simp only [Encoding.isRelative, Encoding.namesOperands, List.contains_cons, List.contains_nil,
    Bool.or_eq_true, Bool.and_eq_true, decide_eq_true_eq, beq_iff_eq, Bool.or_eq_false_iff,
    Bool.and_eq_false_iff, decide_eq_false_iff_not, beq_eq_false_iff_ne, Bool.or_false] at h ⊢
  omega

end Instruction

end CmStream
