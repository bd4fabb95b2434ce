import CmStream.Machine.Repeating
import CmStream.Proofs.Machine.OpenMemory
import CmStream.Proofs.Memory.Addresses

/-!
# Steps of repeated string operations

The step of a repeated string operation is the fetch of its bytes and then one element after the
other. What holds of the elements one by one, holds of the step: `exists_run_elements` carries an
invariant, which may also speak of the accesses that have been made, from each element to the next.
-/

namespace CmStream

open Machine Microprogram

/-! ## Fetching -/

namespace Encoding

/-- The entry of the map says which repetition a modifier asks for, if it asks for one. -/
def agreesRepetition (byte : Byte) : Opcode → Bool
  | .modifier (.repetition repetition) => repeats? byte == some repetition
  | _ => repeats? byte == none

theorem agreesRepetition_ofByte : ∀ byte, agreesRepetition byte (Opcode.ofByte byte) = true :=
  Opcode.forall_ofByte (by decide +kernel)

theorem repetition?_cons (byte : Byte) (code : List Byte) :
    repetition? (byte :: code) = (repetition? code).or (repeats? byte) := by
  unfold repetition?
  rw [List.getLast?_filterMap, List.getLast?_filterMap, List.reverse_cons, List.findSome?_append,
    List.findSome?_singleton]

/-- The last repetition counts. -/
theorem repetition_gather (modifiers : Modifiers) (r : Registers) (code : List Byte) :
    (Instruction.gather modifiers r code).repetition
      = (repetition? code).or modifiers.repetition := by
  induction code generalizing modifiers with
  | nil => rfl
  | cons byte code ih =>
    have hagrees := agreesRepetition_ofByte byte
    rw [Instruction.gather, repetition?_cons]
    cases hbyte : Opcode.ofByte byte with
    | instruction instruction =>
      rw [hbyte] at hagrees
      rw [beq_iff_eq.mp hagrees, ih, Option.or_none]
    | modifier modifier =>
      rw [hbyte] at hagrees
      cases modifier with
      | repetition repetition =>
        rw [beq_iff_eq.mp hagrees, ih, Option.or_assoc]
        rfl
      | segment _ | lock =>
        rw [beq_iff_eq.mp hagrees, ih, Option.or_none]
        rfl

/-- What modifiers amount to, said by the bytes alone. -/
theorem gather_none (r : Registers) (code : List Byte) :
    Instruction.gather Modifiers.none r code = ⟨override? code r, repetition? code⟩ := by
  have hoverride := override_gather Modifiers.none r code
  have hrepetition := repetition_gather Modifiers.none r code
  rw [Modifiers.none, Option.or_none] at hoverride hrepetition
  rw [← hoverride, ← hrepetition]
  rfl

theorem ofByte_stringOpcode (operation : StringOperation) (width : Width) :
    Opcode.ofByte (stringOpcode operation width) = .instruction (.string operation width) := by
  cases operation <;> cases width <;> rfl

end Encoding

open Encoding

/-- The machine faces a repeated string operation: modifiers in any order, a repetition among
them, and the opcode. -/
structure Machine.Repeats (m : Machine) (head : Head) (operation : StringOperation)
    (width : Width) (repetition : Repetition) : Prop where
  faces : m.Faces head.bytes
  opcode : head.opcode = stringOpcode operation width
  repeats : repetition? head.modifiers = some repetition

namespace Machine.Repeats

open Instruction GrantedAccess

variable {m last : Machine} {head : Head} {operation : StringOperation} {width : Width}
  {repetition : Repetition}

theorem operands_eq (h : m.Repeats head operation width repetition) : head.operands = none := by
  have hnamed := head.named
  rw [h.opcode] at hnamed
  cases hcase : head.operands with
  | none => rfl
  | some operands =>
    rw [hcase] at hnamed
    cases operation <;> cases width <;> cases hnamed

theorem bytes_eq (h : m.Repeats head operation width repetition) :
    head.bytes = head.modifiers ++ [head.opcode] := by
  rw [Head.bytes, h.operands_eq]
  rfl

theorem length_eq (h : m.Repeats head operation width repetition) :
    head.length = head.modifiers.length + 1 := by
  have hnumber : numberLength head.opcode 0 = 0 := by
    rw [h.opcode]
    cases operation <;> cases width <;> rfl
  unfold Head.length Head.displacementLength Head.field
  rw [h.operands_eq, h.bytes_eq, List.length_append]
  exact congrArg (_ + ·) hnumber

theorem faces_code (h : m.Repeats head operation width repetition) :
    m.Faces (head.modifiers ++ [head.opcode]) :=
  h.bytes_eq ▸ h.faces

theorem ofByte_opcode (h : m.Repeats head operation width repetition) :
    Opcode.ofByte head.opcode = .instruction (.string operation width) := by
  rw [h.opcode]
  exact ofByte_stringOpcode operation width

theorem run_fetch (h : m.Repeats head operation width repetition) :
    (fetch Instruction.maxModifiers Modifiers.none).run m
      = (.ok ⟨head.opcode, .string operation width,
          ⟨override? head.modifiers m.registers, some repetition⟩⟩, m.past head.length) := by
  have hfew : head.modifiers.length ≤ Instruction.maxModifiers := head.few
  rw [run_fetch_gather _ h.faces_code head.modify hfew h.ofByte_opcode, gather_none, h.repeats,
    h.length_eq]

theorem step_eq (h : m.Repeats head operation width repetition)
    (helements : (operation.elements width (m.sourceSegment head) repetition
      m.registers.cx.toNat).run (m.past head.length) = (.ok (), last)) :
    m.step = (.continued, last) :=
  step_of_perform h.run_fetch helements

theorem accesses_eq (h : m.Repeats head operation width repetition)
    (helements : (operation.elements width (m.sourceSegment head) repetition
      m.registers.cx.toNat).run (m.past head.length) = (.ok (), last)) :
    m.accesses = fetchesOf m.registers.codePointer head.bytes
      ++ (operation.elements width (m.sourceSegment head) repetition
        m.registers.cx.toNat).accesses (m.past head.length) := by
  have hperform : ((Instruction.string operation width).perform head.opcode
      ⟨override? head.modifiers m.registers, some repetition⟩).run (m.past head.length)
      = (.ok (), last) := helements
  have hfew : head.modifiers.length ≤ Instruction.maxModifiers := head.few
  unfold accesses fetchAndPerform
  rw [accesses_bind_of_ok _ h.run_fetch, accesses_bind_of_ok _ hperform,
    accesses_fetch _ h.faces_code head.modify hfew h.ofByte_opcode, h.bytes_eq]
  exact congrArg _ (List.append_nil _)

end Machine.Repeats

/-! ## One element after the other -/

/-- The machine with one taken off the counter. -/
def Machine.counted (m : Machine) : Machine :=
  { m with registers := { m.registers with cx := m.registers.cx - 1 } }

namespace StringOperation

variable {m after : Machine} {operation : StringOperation} {width : Width} {segment : Word}
  {repetition : Repetition}

theorem isOver_of_compares_eq_false (h : operation.compares = false) (repetition : Repetition)
    (r : Registers) : operation.isOver repetition r = false := by
  unfold isOver
  rw [h, Bool.false_and]

theorem run_elements_succ (count : Nat)
    (h : (operation.element width segment).run m = (.ok (), after)) :
    (operation.elements width segment repetition (count + 1)).run m
      = if operation.isOver repetition after.counted.registers then (.ok (), after.counted)
        else (operation.elements width segment repetition count).run after.counted := by
  rw [elements, run_bind_of_ok _ h]
  exact apply_ite (fun p : Microprogram Unit => p.run after.counted) _ _ _

theorem accesses_elements_succ (count : Nat)
    (h : (operation.element width segment).run m = (.ok (), after)) :
    (operation.elements width segment repetition (count + 1)).accesses m
      = (operation.element width segment).accesses m
        ++ if operation.isOver repetition after.counted.registers then []
          else (operation.elements width segment repetition count).accesses after.counted := by
  rw [elements, accesses_bind_of_ok _ h]
  exact congrArg _ (apply_ite (fun p : Microprogram Unit => p.accesses after.counted) _ _ _)

theorem registersAfter_zero (operation : StringOperation) (width : Width) (r : Registers) :
    operation.registersAfter width r 0 = r := by
  simp only [registersAfter, BitVec.zero_mul, BitVec.add_zero, BitVec.sub_zero, ite_self]

/-- When as many elements have been handled as are counted, the counter is zero. -/
theorem cx_registersAfter {r : Registers} {n : Nat} (hn : r.cx.toNat = n)
    (operation : StringOperation) (width : Width) :
    (operation.registersAfter width r n).cx = 0 := by
  show r.cx - BitVec.ofNat 16 n = 0
  rw [← hn, BitVec.ofNat_toNat, BitVec.setWidth_eq, BitVec.sub_self]
  rfl

/-- The indices and the counter move on from one element to the next, whatever flags the element
sets, as long as the direction is the same. -/
theorem registersAfter_succ {r now : Registers} {i : Nat}
    (hnow : now = { operation.registersAfter width r i with flags := now.flags })
    (hdirection : now.flag .direction = r.flag .direction) :
    { operation.advance width now with cx := now.cx - 1 }
      = { operation.registersAfter width r (i + 1) with flags := now.flags } := by
  have hstride : stride width now = stride width r := by
    unfold stride
    rw [hdirection]
  have hindex (index : Word) : index + BitVec.ofNat 16 i * stride width r + stride width r
      = index + BitVec.ofNat 16 (i + 1) * stride width r := by
    rw [BitVec.ofNat_add, BitVec.add_mul, BitVec.one_mul, BitVec.add_assoc]
  have hcounter : r.cx - BitVec.ofNat 16 i - 1 = r.cx - BitVec.ofNat 16 (i + 1) := by
    rw [BitVec.ofNat_add, BitVec.sub_sub]
    rfl
  unfold advance
  rw [hstride, hnow]
  simp only [registersAfter, hcounter]
  split <;> split <;> simp only [hindex]

/-- The same for an element that sets no flags. -/
theorem registersAfter_succ_of_eq {r now : Registers} {i : Nat}
    (hnow : now = operation.registersAfter width r i) :
    { operation.advance width now with cx := now.cx - 1 }
      = operation.registersAfter width r (i + 1) := by
  subst hnow
  exact registersAfter_succ rfl rfl

theorem get_registersAfter (r : Registers) (i : Nat) :
    (operation.registersAfter width r i).get width 0 = r.get width 0 := by
  cases width <;> rfl

/-- From the `i`-th element on until `e` have been handled. The invariant says how the machine is
before an element, and what has been accessed by then. Either `e` is as many as are counted, or the
comparison of the last of them ends it. The induction is on the elements that are counted still. -/
theorem exists_run_elements (invariant : Nat → Machine → List GrantedAccess → Prop) {e : Nat}
    (hstep : ∀ i m seen, i < e → invariant i m seen → ∃ after,
      (operation.element width segment).run m = (.ok (), after)
        ∧ invariant (i + 1) after.counted (seen ++ (operation.element width segment).accesses m))
    (hgoes : ∀ i m seen, i < e → invariant i m seen → 0 < i →
      operation.isOver repetition m.registers = false)
    {i count : Nat} (seen : List GrantedAccess) (hnow : invariant i m seen)
    (hends : e = i + count ∨ (i < e ∧ e ≤ i + count ∧
      ∀ m seen, invariant e m seen → operation.isOver repetition m.registers = true)) :
    ∃ last, (operation.elements width segment repetition count).run m = (.ok (), last)
      ∧ invariant e last
        (seen ++ (operation.elements width segment repetition count).accesses m) := by
  induction count generalizing i m seen with
  | zero =>
    obtain rfl : e = i := by omega
    refine ⟨m, rfl, ?_⟩
    show invariant e m (seen ++ [])
    rw [List.append_nil]
    exact hnow
  | succ count ih =>
    have hi : i < e := by omega
    obtain ⟨after, hrun, hnext⟩ := hstep i m seen hi hnow
    rw [run_elements_succ count hrun, accesses_elements_succ count hrun, ← List.append_assoc]
    by_cases hover : operation.isOver repetition after.counted.registers = true
    · rw [if_pos hover, if_pos hover, List.append_nil]
      have hlast : i + 1 = e := by
        refine Nat.le_antisymm hi (Nat.le_of_not_lt fun hlt => ?_)
        rw [hgoes _ _ _ hlt hnext (Nat.succ_pos i)] at hover
        cases hover
      exact ⟨after.counted, rfl, hlast ▸ hnext⟩
    · rw [if_neg hover, if_neg hover]
      refine ih _ hnext (hends.imp (by omega) fun ⟨_, hle, hstop⟩ => ⟨?_, by omega, hstop⟩)
      refine Nat.lt_of_le_of_ne hi fun hlast => hover ?_
      exact hstop _ _ (hlast ▸ hnext)

end StringOperation

end CmStream
