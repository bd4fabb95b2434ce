import CmStream.Machine.GivingUp
import CmStream.Proofs.Machine.Fetching
import CmStream.Proofs.Machine.Persistence
import Mathlib.Data.List.TakeWhile

/-!
# Machines on an open memory

On an open memory no access is refused, so a program that persists comes to an end. What lies in
front of the machine can then be spelled out: the modifiers, the opcode, and the operand that the
bytes behind it name.
-/

namespace CmStream

namespace PagedMemory

variable {m m' : PagedMemory}

theorem Open.of_sameShape (h : m.Open) (hshape : m.SameShape m') : m'.Open := by
  intro index hindex
  rw [← hshape.page?_eq]
  exact h index hindex

theorem Open.not_refuses (h : m.Open) {access : Access} {address : Nat}
    (haddress : address ≤ FarPointer.maxLinear) : ¬ m.Refuses access address := by
  intro hrefuses
  have hpage : address / pageSize < pageCount := by
    simp only [FarPointer.maxLinear, pageSize, pageCount] at haddress ⊢
    omega
  obtain ⟨page, hshown, hall⟩ := h _ hpage
  have hnone := Permissions.grants_eq_false_iff.mpr (hrefuses page hshown)
  rw [hall, Permissions.grants_all] at hnone
  cases hnone

theorem Open.read_eq (h : m.Open) (access : Access) (place : FarPointer) :
    m.read access place.linear = .ok (m.see access place.linear) := by
  unfold see
  cases hread : m.read access place.linear with
  | ok byte => rfl
  | error fault => exact absurd (read_eq_error hread).2 (h.not_refuses place.linear_le)

end PagedMemory

namespace Microprogram

open Machine

variable {α β : Type} {p : Microprogram α} {m after : Machine}

theorem open_run (hopen : m.memory.Open) (p : Microprogram α) : (p.run m).2.memory.Open :=
  hopen.of_sameShape (sameShape_run p m)

/-- No program meets a refused access. -/
theorem run_ne_fault (hopen : m.memory.Open) (p : Microprogram α) (fault : Fault) :
    (p.run m).1 ≠ .error (.fault fault) := by
  intro hfault
  obtain ⟨haddress, hrefuses⟩ := refuses_of_run_eq_fault hfault
  exact hopen.not_refuses haddress hrefuses

/-- A program that persists comes to an end. -/
theorem Persists.exists_run (h : p.Persists) (hopen : m.memory.Open) :
    ∃ value after, p.run m = (.ok value, after) ∧ after.memory.Open := by
  rcases hrun : p.run m with ⟨result, after⟩
  have hafter := open_run hopen p
  rw [hrun] at hafter
  cases result with
  | ok value => exact ⟨value, after, rfl, hafter⟩
  | error cause =>
    have hcause : (p.run m).1 = .error cause := by rw [hrun]
    obtain ⟨fault, rfl⟩ := h.exists_fault hcause
    exact absurd hcause (run_ne_fault hopen p fault)

/-! ## Loading and fetching -/

theorem run_fetchByte_of_open (hopen : m.memory.Open) :
    fetchByte.run m = (.ok m.nextByte, m.past 1) :=
  run_fetchByte (faces_cons_iff.mpr ⟨hopen.read_eq .execute _, faces_nil _⟩)

theorem run_fetchWord_of_open (hopen : m.memory.Open) :
    fetchWord.run m = (.ok (Word.ofBytes m.nextByte (m.past 1).nextByte), m.past 2) := by
  have hnext : (m.past 1).memory.Open := hopen
  unfold fetchWord
  rw [run_bind_of_ok _ (run_fetchByte_of_open hopen),
    run_bind_of_ok _ (run_fetchByte_of_open hnext), ← past_add]
  rfl

theorem run_loadData_of_open (hopen : m.memory.Open) (width : Width) (place : FarPointer) :
    (loadData width place).run m = (.ok (m.memory.seeData width place), m) := by
  cases width with
  | byte => exact run_loadByte _ (hopen.read_eq .read place)
  | word => exact run_loadWord (hopen.read_eq .read place) (hopen.read_eq .read _)

theorem run_fetchDisplacement_of_open (hopen : m.memory.Open) {byte : Byte}
    (hmemory : (OperandByte.ofByte byte).namesRegister = false) :
    (OperandByte.ofByte byte).fetchDisplacement.run m
      = (.ok (Encoding.distance
          ((List.range (Encoding.displacementLength byte)).map fun i => (m.past i).nextByte)),
        m.past (Encoding.displacementLength byte)) := by
  rw [Instruction.displacementLength_eq, hmemory, if_neg Bool.false_ne_true]
  unfold OperandByte.fetchDisplacement
  split
  case isTrue =>
    rw [run_fetchWord_of_open hopen]
    simp only [List.range_succ_eq_map, List.range_zero, List.map_cons, List.map_nil, past_zero]
    rfl
  case isFalse =>
    split
    case isTrue =>
      unfold fetchSigned
      rw [run_bind_of_ok _ (run_fetchByte_of_open hopen)]
      simp only [List.range_succ_eq_map, List.range_zero, List.map_cons, List.map_nil, past_zero]
      rfl
    case isFalse =>
      rw [past_zero]
      rfl

end Microprogram

namespace Encoding

theorem namesRegister_eq : ∀ byte : Byte,
    namesRegister byte = (OperandByte.ofByte byte).namesRegister := by
  decide

/-- The entry of the map says which segment a modifier names, if it names one. -/
def agreesSegment (byte : Byte) : Opcode → Bool
  | .modifier (.segment name) => segment? byte == some name
  | _ => segment? byte == none

theorem agreesSegment_ofByte : ∀ byte, agreesSegment byte (Opcode.ofByte byte) = true :=
  Opcode.forall_ofByte (by decide +kernel)

/-- The last override counts. -/
theorem override_gather (modifiers : Modifiers) (r : Registers) (code : List Byte) :
    (Instruction.gather modifiers r code).override = (override? code r).or modifiers.override := by
  induction code generalizing modifiers with
  | nil => rfl
  | cons byte code ih =>
    have hagrees := agreesSegment_ofByte byte
    have hcons : override? (byte :: code) r
        = (override? code r).or ((segment? byte).map r.segment) := by
      unfold override?
      rw [List.getLast?_filterMap, List.getLast?_filterMap, List.reverse_cons,
        List.findSome?_append, List.findSome?_singleton, Option.map_or]
    rw [Instruction.gather, hcons]
    cases hbyte : Opcode.ofByte byte with
    | instruction instruction =>
      rw [hbyte] at hagrees
      rw [beq_iff_eq.mp hagrees, ih, Option.map_none, Option.or_none]
    | modifier modifier =>
      rw [hbyte] at hagrees
      cases modifier with
      | segment name =>
        rw [beq_iff_eq.mp hagrees, ih, Option.or_assoc]
        rfl
      | lock | repetition _ =>
        rw [beq_iff_eq.mp hagrees, ih, Option.map_none, Option.or_none]
        rfl

end Encoding

theorem OperandByte.base_with_ip (named : OperandByte) (r : Registers) (ip : Word) :
    named.base { r with ip := ip } = named.base r := by
  unfold base
  rfl

namespace Machine

open Microprogram Instruction

variable {m : Machine} {opcode : Byte}

/-! ## In front of the machine -/

theorem nextByte_past (m : Machine) (i : Nat) : (m.past i).nextByte = m.codeAt i := rfl

theorem faces_codeAt (hopen : m.memory.Open) (count : Nat) :
    m.Faces ((List.range count).map m.codeAt) := by
  intro i hi
  rw [List.getElem_map, List.getElem_range]
  exact hopen.read_eq .execute _

theorem modifiers_eq (m : Machine) :
    m.modifiers = (List.range m.modifiers.length).map m.codeAt := by
  have hprefix : m.modifiers <+: (List.range (Encoding.maxModifiers + 1)).map m.codeAt :=
    List.takeWhile_prefix _
  have hle := hprefix.length_le
  rw [List.length_map, List.length_range] at hle
  rw [List.prefix_iff_eq_take, ← List.map_take, List.take_range, Nat.min_eq_left hle] at hprefix
  exact hprefix

theorem isModifier_of_mem_modifiers {byte : Byte} (h : byte ∈ m.modifiers) :
    Encoding.isModifier byte = true :=
  List.mem_takeWhile_imp h

theorem length_modifiers_le (m : Machine) : m.modifiers.length ≤ Encoding.maxModifiers + 1 := by
  have hle := (List.takeWhile_prefix (l := (List.range (Encoding.maxModifiers + 1)).map m.codeAt)
    Encoding.isModifier).length_le
  rwa [List.length_map, List.length_range] at hle

/-- Behind the modifiers stands no other. -/
theorem isModifier_codeAt (hfew : m.modifiers.length ≤ Encoding.maxModifiers) :
    Encoding.isModifier (m.codeAt m.modifiers.length) = false := by
  let bytes := (List.range (Encoding.maxModifiers + 1)).map m.codeAt
  have hsplit : m.modifiers ++ bytes.dropWhile Encoding.isModifier = bytes :=
    List.takeWhile_append_dropWhile
  have hhead : (bytes.dropWhile Encoding.isModifier).head?
      = some (m.codeAt m.modifiers.length) := by
    rw [List.head?_eq_getElem?, ← Nat.sub_self m.modifiers.length,
      ← List.getElem?_append_right (Nat.le_refl _), hsplit, List.getElem?_map,
      List.getElem?_range (Nat.lt_succ_of_le hfew)]
    rfl
  have hnot := List.head?_dropWhile_not Encoding.isModifier bytes
  rw [hhead] at hnot
  exact hnot

/-- The machine behind the modifiers and the opcode. -/
def behindOpcode (m : Machine) : Machine := m.past (m.modifiers.length + 1)

theorem open_behindOpcode (hopen : m.memory.Open) : m.behindOpcode.memory.Open := hopen

theorem nextByte_behindOpcode_past (m : Machine) (i : Nat) :
    (m.behindOpcode.past i).nextByte = m.tailAt i := by
  unfold behindOpcode tailAt
  rw [← past_add, nextByte_past]

theorem nextByte_behindOpcode (m : Machine) : m.behindOpcode.nextByte = m.tailAt 0 := by
  rw [← nextByte_behindOpcode_past, past_zero]

theorem opcode?_eq_some_iff : m.opcode? = some opcode
    ↔ m.modifiers.length ≤ Encoding.maxModifiers ∧ m.codeAt m.modifiers.length = opcode := by
  unfold opcode?
  split
  case isTrue hfew => simp only [hfew, true_and, Option.some.injEq]
  case isFalse hmany => simp only [hmany, false_and, reduceCtorEq]

/-- An instruction is fetched, unless there are too many modifiers. -/
theorem exists_run_fetch (hopen : m.memory.Open) (h : m.opcode? = some opcode) :
    ∃ instruction modifiers, Opcode.ofByte opcode = .instruction instruction
      ∧ modifiers.override = Encoding.override? m.modifiers m.registers
      ∧ (fetch Instruction.maxModifiers Modifiers.none).run m
        = (.ok ⟨opcode, instruction, modifiers⟩, m.behindOpcode) := by
  obtain ⟨hfew, rfl⟩ := opcode?_eq_some_iff.mp h
  obtain ⟨instruction, hopcode⟩ := exists_instruction (isModifier_codeAt hfew)
  have hface : m.Faces (m.modifiers ++ [m.codeAt m.modifiers.length]) := by
    have hall := faces_codeAt hopen (m.modifiers.length + 1)
    rwa [List.range_succ, List.map_append, ← modifiers_eq] at hall
  refine ⟨instruction, gather Modifiers.none m.registers m.modifiers, hopcode, ?_, ?_⟩
  · rw [Encoding.override_gather]
    exact Option.or_none
  · exact run_fetch_gather _ hface (fun _ => isModifier_of_mem_modifiers) hfew hopcode

theorem run_fetch_of_tooMany (hopen : m.memory.Open)
    (h : m.modifiers.length = Encoding.maxModifiers + 1) :
    ((fetch Instruction.maxModifiers Modifiers.none).run m).1
      = .error (.undefinedOpcode (m.codeAt Encoding.maxModifiers)) := by
  have hmodifiers := modifiers_eq m
  rw [h, List.range_succ, List.map_append] at hmodifiers
  have hface := faces_codeAt hopen (Encoding.maxModifiers + 1)
  rw [List.range_succ, List.map_append] at hface
  have hrun := run_fetch_tooMany Modifiers.none hface fun byte hbyte =>
    isModifier_of_mem_modifiers (by rwa [hmodifiers])
  rw [List.length_map, List.length_range] at hrun
  exact congrArg Prod.fst hrun

/-! ## Operands -/

theorem segment_behindOpcode (m : Machine) (count : Nat) (name : SegmentRegister) :
    (m.behindOpcode.past count).registers.segment name = m.registers.segment name :=
  Registers.segment_with_ip _ _ name

theorem get_behindOpcode (m : Machine) (count : Nat) (width : Width) (index : RegisterIndex) :
    (m.behindOpcode.past count).registers.get width index = m.registers.get width index :=
  Registers.get_with_ip _ _ width index

theorem base_behindOpcode (m : Machine) (count : Nat) (named : OperandByte) :
    named.base (m.behindOpcode.past count).registers = named.base m.registers :=
  named.base_with_ip _ _

theorem run_fetchOperands (hopen : m.memory.Open) :
    (Operands.fetch (Encoding.override? m.modifiers m.registers)).run m.behindOpcode
      = (.ok ⟨Encoding.field (m.tailAt 0), m.formOperand⟩,
        m.behindOpcode.past (1 + Encoding.displacementLength (m.tailAt 0))) := by
  have hrest (i : Nat) : ((m.behindOpcode.past 1).past i).nextByte = m.tailAt (i + 1) := by
    rw [← past_add, Nat.add_comm 1 i, nextByte_behindOpcode_past]
  unfold Operands.fetch formOperand
  rw [run_bind_of_ok _ (run_fetchByte_of_open (open_behindOpcode hopen)), nextByte_behindOpcode,
    Encoding.namesRegister_eq]
  cases hnamed : (OperandByte.ofByte (m.tailAt 0)).namesRegister with
  | true =>
    rw [Instruction.displacementLength_eq, if_pos hnamed]
    simp only [hnamed, if_true]
    rfl
  | false =>
    have hnext : (m.behindOpcode.past 1).memory.Open := hopen
    simp only [hnamed, Bool.false_eq_true, if_false]
    rw [run_bind_of_ok _ (run_fetchDisplacement_of_open hnext hnamed),
      run_bind_of_ok _ run_registers, ← past_add]
    unfold formPlace
    simp only [hrest, base_behindOpcode, segment_behindOpcode, run_pure]
    rcases (OperandByte.ofByte (m.tailAt 0)).base m.registers with ⟨base, segment⟩
    rfl

/-- What an operand is worth behind the bytes that name it. -/
theorem run_loadOperand (hopen : m.memory.Open) (count : Nat) (width : Width) :
    (m.formOperand.load width).run (m.behindOpcode.past count)
      = (.ok (m.formValue width), m.behindOpcode.past count) := by
  unfold formOperand formValue
  split
  case isTrue =>
    rw [← get_behindOpcode m count]
    rfl
  case isFalse => exact run_loadData_of_open (m := m.behindOpcode.past count) hopen width _

end Machine

end CmStream
