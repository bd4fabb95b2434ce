import CmStream.Proofs.Machine.Confinement
import CmStream.Proofs.Machine.Fetching
import CmStream.Proofs.Machine.Iteration

/-!
# Instructions are as long as the tables say

The tables of `Encoding` give the length of every instruction by its bytes alone. A step fetches
just these bytes and goes on behind them, unless it transfers control; relative jumps count from
there, and calls keep that place on the stack.
-/

namespace CmStream

namespace Encoding

open Machine Microprogram Instruction

variable {m : Machine} {head : Head} {instruction : Instruction}

namespace Head

/-- The machine behind the opcode. -/
def behindOpcode (head : Head) (m : Machine) : Machine := m.past (head.modifiers.length + 1)

theorem faces_bytes_iff : m.Faces head.bytes ↔ m.Faces (head.modifiers ++ [head.opcode])
    ∧ (head.behindOpcode m).Faces head.operands.toList := by
  have hsplit : head.bytes = (head.modifiers ++ [head.opcode]) ++ head.operands.toList := by
    rw [bytes, List.append_assoc]
    rfl
  rw [hsplit, faces_append_iff, List.length_append]
  rfl

/-- The field of the byte behind the opcode is the field of the head, if there is one at all. -/
theorem field_eq (hface : m.Faces head.bytes) {α : Type} {f : BitVec 3 → α}
    (hnone : namesOperands head.opcode = false → ∀ field, f field = f 0) :
    f (Encoding.field (head.behindOpcode m).nextByte) = f head.field := by
  have hoperands := (faces_bytes_iff.mp hface).2
  have hnamed := head.named
  unfold field
  cases hcase : head.operands with
  | none =>
    rw [hcase] at hnamed
    exact hnone hnamed.symm _
  | some operands =>
    rw [hcase] at hoperands
    rw [hoperands.nextByte_eq]

/-- Behind the opcode comes as much as the table says, and control goes where the table says. -/
theorem length_eq (hface : m.Faces head.bytes)
    (hopcode : Opcode.ofByte head.opcode = .instruction instruction)
    (hsupported : instruction ≠ .unsupported) (hdefined : instruction ≠ .undefined) :
    head.modifiers.length + 1 + instruction.tailLength (head.behindOpcode m).nextByte = head.length
      ∧ instruction.transfers (Encoding.field (head.behindOpcode m).nextByte)
        = isTransfer head.opcode head.field := by
  obtain ⟨hnames, htables⟩ := tables_eq hopcode hsupported hdefined
  have hnumber := field_eq hface (f := numberLength head.opcode) fun hnone field =>
    (of_not_namesOperands _ hnone field).1
  have htransfer := field_eq hface (f := isTransfer head.opcode) fun hnone field =>
    (of_not_namesOperands _ hnone field).2.1
  have hoperands := (faces_bytes_iff.mp hface).2
  have hnamed := head.named
  refine ⟨?_, (htables _).2.symm.trans htransfer⟩
  unfold length bytes displacementLength tailLength
  rw [← hnames, ← (htables _).1, hnumber, ← hnamed, List.length_append, List.length_cons]
  cases hcase : head.operands with
  | none => rfl
  | some operands =>
    rw [hcase] at hoperands
    rw [hoperands.nextByte_eq]
    show head.modifiers.length + 1 + (1 + Encoding.displacementLength operands
        + numberLength head.opcode head.field)
      = head.modifiers.length + 2 + Encoding.displacementLength operands
        + numberLength head.opcode head.field
    omega

/-- An instruction that the machine lacks ends at its opcode. -/
theorem le_length (head : Head) : head.modifiers.length + 1 ≤ head.length := by
  unfold length bytes
  rw [List.length_append, List.length_cons]
  omega

/-- A step reads no more than the modifiers, the opcode, and what the instruction reads. -/
theorem reads (hface : m.Faces head.bytes)
    (hopcode : Opcode.ofByte head.opcode = .instruction instruction) :
    Reads (instruction.course (Encoding.field (head.behindOpcode m).nextByte)) fetchAndPerform
      (head.modifiers.length + 1 + instruction.tailLength (head.behindOpcode m).nextByte) m :=
  reads_fetchAndPerform (faces_bytes_iff.mp hface).1 head.modify head.few hopcode

/-- A step performs the instruction whose bytes the machine faces. -/
theorem step_of_run {last : Machine} (hface : m.Faces head.bytes)
    (hopcode : Opcode.ofByte head.opcode = .instruction instruction)
    (hgoes : instruction ≠ .halt)
    (hrun : ∀ modifiers, (instruction.perform head.opcode modifiers).run (head.behindOpcode m)
      = (.ok (), last)) : m.step = (.continued, last) := by
  have hfew : head.modifiers.length ≤ Instruction.maxModifiers := head.few
  have hfetch := run_fetch_gather Modifiers.none (faces_bytes_iff.mp hface).1 head.modify hfew
    hopcode
  rw [step_of_perform hfetch (hrun _), if_neg hgoes]

/-- Without a byte that names operands, a number is all that comes behind the opcode. -/
theorem length_of_not_namesOperands (head : Head) (h : namesOperands head.opcode = false) :
    head.bytes.length = head.modifiers.length + 1
      ∧ head.length = head.bytes.length + numberLength head.opcode 0 := by
  have hnone : head.operands = none := by
    rw [← Option.not_isSome_iff_eq_none, head.named, h]
    exact Bool.false_ne_true
  unfold length displacementLength field bytes
  rw [hnone, List.length_append]
  exact ⟨rfl, rfl⟩

end Head

end Encoding

namespace Machine

open Encoding Microprogram Instruction

variable {m : Machine}

/-- The step continues or halts; it does not stop. -/
def Completes (m : Machine) : Prop := m.step.1 = .continued ∨ m.step.1 = .halted

theorem exists_of_completes (h : m.Completes) :
    ∃ halts, fetchAndPerform.run m = (.ok halts, m.step.2) := by
  unfold Completes at h
  rw [step_snd]
  unfold step at h
  split at h
  case h_1 after hrun => exact ⟨true, hrun ▸ rfl⟩
  case h_2 after hrun => exact ⟨false, hrun ▸ rfl⟩
  case h_3 => rcases h with h | h <;> cases h

/-- What a step that completes has in front of it: the bytes of an instruction. -/
theorem exists_head_of_completes (h : m.Completes) : ∃ head : Head, m.Faces head.bytes := by
  obtain ⟨halts, hrun⟩ := exists_of_completes h
  obtain ⟨fetched, between, hfetch, hrest⟩ := run_bind_eq_ok hrun
  obtain ⟨code, hfew, hmodify, hopcode, hface⟩ := exists_of_fetch_eq_ok hfetch
  have hproper := isModifier_of_instruction hopcode
  cases hnames : Encoding.namesOperands fetched.opcode with
  | false =>
    exact ⟨⟨code, fetched.opcode, none, hfew, hmodify, hproper, hnames.symm⟩, hface⟩
  | true =>
    -- The byte that names operands has been read, for all bytes have been.
    obtain ⟨all, hall, -, -, -, hlength⟩ := reads_fetchAndPerform hface hmodify hfew hopcode
    obtain ⟨⟨⟩, last, hperform, -⟩ := run_bind_eq_ok hrest
    obtain ⟨hsupported, hdefined⟩ := supported_of_run_eq_ok hperform
    have hread : code.length + 2 ≤ all.length := by
      rw [hlength halts (by rw [hrun]), tailLength, ← (tables_eq hopcode hsupported hdefined).1,
        hnames, if_pos rfl]
      omega
    have hrest := hall.drop (n := code.length + 1) (by omega)
    cases hdrop : all.drop (code.length + 1) with
    | nil =>
      have hempty := congrArg List.length hdrop
      rw [List.length_drop, List.length_nil] at hempty
      omega
    | cons operands more =>
      rw [hdrop] at hrest
      exact ⟨⟨code, fetched.opcode, some operands, hfew, hmodify, hproper, hnames.symm⟩,
        Head.faces_bytes_iff.mpr ⟨hface, (faces_cons_iff.mpr ⟨hrest.head, faces_nil _⟩)⟩⟩

section Head

variable {head : Head}

/-- What a step that completes comes to: what the instruction does behind its opcode. -/
theorem exists_perform_of_completes (h : m.Completes) (hface : m.Faces head.bytes) :
    ∃ instruction modifiers earlier, Opcode.ofByte head.opcode = .instruction instruction
      ∧ (instruction.perform head.opcode modifiers).run (head.behindOpcode m) = (.ok (), m.step.2)
      ∧ m.accesses = earlier
        ++ (instruction.perform head.opcode modifiers).accesses (head.behindOpcode m) := by
  obtain ⟨instruction, hopcode⟩ := exists_instruction head.proper
  obtain ⟨halts, hrun⟩ := exists_of_completes h
  have hfew : head.modifiers.length ≤ Instruction.maxModifiers := head.few
  have hfetch := run_fetch_gather Modifiers.none (Head.faces_bytes_iff.mp hface).1
    head.modify hfew hopcode
  have hrest := hrun
  unfold fetchAndPerform at hrest
  rw [run_bind_of_ok _ hfetch] at hrest
  obtain ⟨⟨⟩, last, hperform, hlast⟩ := run_bind_eq_ok hrest
  cases hlast
  refine ⟨instruction, _, (fetch Instruction.maxModifiers Modifiers.none).accesses m, hopcode,
    hperform, ?_⟩
  unfold accesses fetchAndPerform
  rw [accesses_bind_of_ok _ hfetch, accesses_bind_of_ok _ hperform]
  exact congrArg _ (List.append_nil _)

end Head

end Machine

/-! ## Transfers of control -/

namespace Instruction

open Machine Microprogram

variable {m after : Machine}

theorem goes_jumpIf (condition : Condition) (negated : Bool) (r : Registers) :
    Encoding.goes (jumpIf condition negated).relativeOpcode r
      = (condition.holds r != negated) := by
  cases condition <;> cases negated <;> simp [relativeOpcode, Encoding.goes, Condition.holds]

theorem goes_loop (condition : LoopCondition) (r : Registers) :
    Encoding.goes (loop condition).relativeOpcode r = (r.cx != 1 && condition.holds r) := by
  cases condition <;> simp [relativeOpcode, Encoding.goes, LoopCondition.holds]

theorem fetchNumber_eq_ok (short : Bool) {number : Word}
    (h : (fetchNumber .word short).run m = (.ok number, after)) :
    ∃ code, m.Faces code ∧ code.length = numberSize .word short
      ∧ Encoding.distance code = number ∧ after = m.past code.length := by
  cases short with
  | true =>
    obtain ⟨byte, between, hbyte, hvalue⟩ := run_bind_eq_ok h
    obtain ⟨hface, rfl⟩ := fetchByte_eq_ok hbyte
    cases hvalue
    exact ⟨[byte], hface, rfl, rfl, rfl⟩
  | false =>
    obtain ⟨first, between, hfirst, hrest⟩ := run_bind_eq_ok h
    obtain ⟨hface, rfl⟩ := fetchByte_eq_ok hfirst
    obtain ⟨second, last, hsecond, hvalue⟩ := run_bind_eq_ok hrest
    obtain ⟨hface', rfl⟩ := fetchByte_eq_ok hsecond
    cases hvalue
    exact ⟨[first, second], faces_cons_iff.mpr ⟨hface.head, hface'⟩, rfl, rfl,
      (past_add 1 1 m).symm⟩

/-- A jump that is made or not. -/
theorem ip_of_jumpBy_if {goes : Prop} [Decidable goes] {distance : Word}
    (h : (if goes then jumpBy distance else pure ()).run m = (.ok (), after)) :
    after.registers.ip = m.registers.ip + if goes then distance else 0 := by
  split at h
  case isTrue hgoes =>
    cases h
    rw [if_pos hgoes]
  case isFalse hgoes =>
    cases h
    rw [if_neg hgoes]
    exact (BitVec.add_zero _).symm

/-- A jump, a call or a loop that comes to an end has read its distance, and goes it or does not. -/
theorem ip_of_relative {instruction : Instruction} {opcode : Byte} {modifiers : Modifiers}
    (hrelative : Encoding.isRelative opcode = true)
    (hopcode : Opcode.ofByte opcode = .instruction instruction)
    (h : (instruction.perform opcode modifiers).run m = (.ok (), after)) :
    ∃ number, m.Faces number ∧ number.length = instruction.numberLength 0
      ∧ after.registers.ip = (m.past number.length).registers.ip
        + if Encoding.goes opcode m.registers then Encoding.distance number else 0 := by
  obtain rfl := relativeOpcode_eq hrelative hopcode
  cases instruction with
  | jumpIf condition negated =>
    obtain ⟨_, between, hfetch, hrest⟩ := run_bind_eq_ok h
    obtain ⟨number, hface, hlength, rfl, rfl⟩ := fetchNumber_eq_ok true hfetch
    refine ⟨number, hface, hlength, ?_⟩
    rw [goes_jumpIf]
    exact ip_of_jumpBy_if hrest
  | loop condition =>
    obtain ⟨_, between, hfetch, hrest⟩ := run_bind_eq_ok h
    obtain ⟨number, hface, hlength, rfl, rfl⟩ := fetchNumber_eq_ok true hfetch
    refine ⟨number, hface, hlength, ?_⟩
    have hcounter : (m.registers.cx != 1) = (m.registers.cx - 1 != 0) := by
      have hzero : m.registers.cx = 1 ↔ m.registers.cx - 1 = 0 := by bv_omega
      rw [Bool.eq_iff_iff, bne_iff_ne, bne_iff_ne, ne_eq, hzero]
    rw [goes_loop, hcounter]
    exact ip_of_jumpBy_if (m := { m.past number.length with registers :=
      { (m.past number.length).registers with cx := m.registers.cx - 1 } }) hrest
  | jumpIfCounterZero =>
    obtain ⟨_, between, hfetch, hrest⟩ := run_bind_eq_ok h
    obtain ⟨number, hface, hlength, rfl, rfl⟩ := fetchNumber_eq_ok true hfetch
    refine ⟨number, hface, hlength, ?_⟩
    have hrun : (if m.registers.cx = 0 then jumpBy (Encoding.distance number) else pure ()).run
        (m.past number.length) = (.ok (), after) := hrest
    have hgoes : Encoding.goes jumpIfCounterZero.relativeOpcode m.registers = true
        ↔ m.registers.cx = 0 := beq_iff_eq
    simp only [hgoes]
    exact ip_of_jumpBy_if hrun
  | jump short =>
    obtain ⟨_, between, hfetch, hrest⟩ := run_bind_eq_ok h
    obtain ⟨number, hface, hlength, rfl, rfl⟩ := fetchNumber_eq_ok short hfetch
    refine ⟨number, hface, hlength, ?_⟩
    cases hrest
    cases short <;> rfl
  | call =>
    obtain ⟨_, between, hfetch, hrest⟩ := run_bind_eq_ok h
    obtain ⟨number, hface, hlength, rfl, rfl⟩ := fetchNumber_eq_ok false hfetch
    obtain ⟨⟨⟩, between', hpush, hjump⟩ := run_bind_eq_ok hrest
    refine ⟨number, hface, hlength, ?_⟩
    -- A push leaves the instruction pointer alone, whichever value goes on the stack.
    have hstays := (Plain.push (m.past number.length).registers.ip).stays (m.past number.length)
    have hip : between'.registers.ip = (m.past number.length).registers.ip := by
      have hrun : (push (m.past number.length).registers.ip).run (m.past number.length) = _ := hpush
      rw [hrun] at hstays
      exact hstays.ip
    cases hjump
    show between'.registers.ip + _ = _
    rw [hip]
    rfl
  | _ => exact absurd (show Encoding.isRelative 0 = true from hrelative) (by decide)

/-! ## Calls -/

theorem storeByte_eq_ok {place : FarPointer} {value : Byte}
    (h : (storeByte place value).run m = (.ok (), after)) :
    (storeByte place value).accesses m = [⟨.write, place, value⟩]
      ∧ after.registers = m.registers := by
  unfold storeByte at h ⊢
  rw [Microprogram.run] at h
  rw [Microprogram.accesses]
  cases hlocate : m.memory.locate .write place.linear with
  | error fault =>
    rw [hlocate] at h
    cases h
  | ok slot =>
    rw [hlocate] at h
    cases h
    exact ⟨rfl, rfl⟩

theorem push_eq_ok (value : Word) (h : (push value).run m = (.ok (), after)) :
    (push value).accesses m = GrantedAccess.pushesOf m.registers.stackPointer [value]
      ∧ after.registers = { m.registers with sp := m.registers.sp - 2 } := by
  let lowered : Machine := { m with registers := { m.registers with sp := m.registers.sp - 2 } }
  have hstore : (storeWord lowered.registers.stackPointer value).run lowered = (.ok (), after) := h
  obtain ⟨⟨⟩, between, hfirst, hsecond⟩ := run_bind_eq_ok hstore
  obtain ⟨haccessFirst, hkept⟩ := storeByte_eq_ok hfirst
  obtain ⟨haccessSecond, hkept'⟩ := storeByte_eq_ok hsecond
  refine ⟨?_, hkept'.trans hkept⟩
  show (storeWord lowered.registers.stackPointer value).accesses lowered = _
  unfold storeWord
  rw [accesses_bind_of_ok _ hfirst, haccessFirst, haccessSecond]
  rfl

theorem pushReturn_eq_ok (h : pushReturn.run m = (.ok (), after)) :
    pushReturn.accesses m
        = GrantedAccess.pushesOf m.registers.stackPointer [m.registers.ip]
      ∧ after.registers = { m.registers with sp := m.registers.sp - 2 } :=
  push_eq_ok m.registers.ip h

theorem pushFarReturn_eq_ok (h : pushFarReturn.run m = (.ok (), after)) :
    pushFarReturn.accesses m
        = GrantedAccess.pushesOf m.registers.stackPointer [m.registers.cs, m.registers.ip]
      ∧ after.registers = { m.registers with sp := m.registers.sp - 2 - 2 } := by
  have hboth : (push m.registers.cs >>= fun _ => pushReturn).run m = (.ok (), after) := h
  obtain ⟨⟨⟩, between, hsegment, hoffset⟩ := run_bind_eq_ok hboth
  obtain ⟨haccessSegment, hkept⟩ := push_eq_ok _ hsegment
  obtain ⟨haccessOffset, hkept'⟩ := pushReturn_eq_ok hoffset
  rw [hkept] at haccessOffset hkept'
  refine ⟨?_, hkept'⟩
  show (push m.registers.cs >>= fun _ => pushReturn).accesses m = _
  rw [accesses_bind_of_ok _ hsegment, haccessSegment, haccessOffset]
  rfl

/-- The last accesses of a program push the given words, and the stack pointer ends below them. -/
structure PushesLast (p : Microprogram Unit) (m : Machine) (words : List Word) : Prop where
  last : ∃ earlier, p.accesses m
    = earlier ++ GrantedAccess.pushesOf m.registers.stackPointer words
  sp : (p.run m).2.registers.sp = m.registers.sp - BitVec.ofNat 16 (2 * words.length)

/-- What is in front of the pushes may be anything that leaves stack and stack pointer as they
are. -/
theorem PushesLast.behind {α : Type} {p : Microprogram α} {f : α → Microprogram Unit} {value : α}
    {between : Machine} {words : List Word} (hfirst : p.run m = (.ok value, between))
    (hstack : between.registers.stackPointer = m.registers.stackPointer)
    (hrest : PushesLast (f value) between words) : PushesLast (p >>= f) m words := by
  obtain ⟨earlier, hearlier⟩ := hrest.last
  rw [hstack] at hearlier
  refine ⟨⟨p.accesses m ++ earlier, ?_⟩, ?_⟩
  · rw [accesses_bind_of_ok f hfirst, hearlier, List.append_assoc]
  · rw [run_bind_of_ok f hfirst, hrest.sp]
    exact congrArg (fun place => place.offset - _) hstack

section Jump

variable {change : Registers → Registers}

theorem pushesLast_of_pushReturn (hsp : ∀ r, (change r).sp = r.sp)
    (h : (pushReturn >>= fun _ => modifyRegisters change).run m = (.ok (), after)) :
    PushesLast (pushReturn >>= fun _ => modifyRegisters change) m [m.registers.ip] := by
  obtain ⟨⟨⟩, between, hpush, -⟩ := run_bind_eq_ok h
  obtain ⟨haccesses, hkept⟩ := pushReturn_eq_ok hpush
  refine ⟨⟨[], ?_⟩, ?_⟩
  · rw [accesses_bind_of_ok _ hpush, haccesses]
    exact List.append_nil _
  · rw [run_bind_of_ok _ hpush, run_modifyRegisters]
    exact (hsp _).trans (congrArg Registers.sp hkept)

theorem pushesLast_of_pushFarReturn (hsp : ∀ r, (change r).sp = r.sp)
    (h : (pushFarReturn >>= fun _ => modifyRegisters change).run m = (.ok (), after)) :
    PushesLast (pushFarReturn >>= fun _ => modifyRegisters change) m
      [m.registers.cs, m.registers.ip] := by
  obtain ⟨⟨⟩, between, hpush, -⟩ := run_bind_eq_ok h
  obtain ⟨haccesses, hkept⟩ := pushFarReturn_eq_ok hpush
  refine ⟨⟨[], ?_⟩, ?_⟩
  · rw [accesses_bind_of_ok _ hpush, haccesses]
    exact List.append_nil _
  · rw [run_bind_of_ok _ hpush, run_modifyRegisters]
    refine (hsp _).trans ((congrArg Registers.sp hkept).trans ?_)
    show m.registers.sp - 2 - 2 = m.registers.sp - 4
    bv_omega

end Jump

section Call

variable {opcode : Byte} {instruction : Instruction} {modifiers : Modifiers}

/-- Every call within the segment pushes the place behind itself. -/
theorem pushesLast_of_isNearCall
    (hcall : Encoding.isNearCall opcode (Encoding.field m.nextByte) = true)
    (hopcode : Opcode.ofByte opcode = .instruction instruction)
    (h : (instruction.perform opcode modifiers).run m = (.ok (), after)) :
    PushesLast (instruction.perform opcode modifiers) m
      [(m.past (instruction.tailLength m.nextByte)).registers.ip] := by
  simp only [Encoding.isNearCall, Bool.or_eq_true, Bool.and_eq_true, beq_iff_eq] at hcall
  rcases hcall with rfl | ⟨rfl, hfield⟩
  · obtain rfl : call = instruction :=
      Opcode.instruction.inj ((rfl : .instruction call = Opcode.ofByte 0xe8).trans hopcode)
    obtain ⟨distance, between, hfetch, hrest⟩ := run_bind_eq_ok h
    obtain rfl := (Reads.fetchWord m).eq_past hfetch
    exact .behind hfetch rfl (pushesLast_of_pushReturn (fun _ => rfl) hrest)
  · obtain rfl : wordGroup = instruction :=
      Opcode.instruction.inj ((rfl : .instruction wordGroup = Opcode.ofByte 0xff).trans hopcode)
    obtain ⟨operands, between, hfetch, hrest⟩ := run_bind_eq_ok h
    obtain rfl := (reads_fetchOperands _ m).eq_past hfetch
    refine .behind hfetch rfl ?_
    have hoperation : WordOperation.ofIndex operands.field = .call := by
      rw [field_of_fetch hfetch, hfield]
      rfl
    rw [hoperation] at hrest ⊢
    obtain ⟨target, between, hload, hrest⟩ := run_bind_eq_ok hrest
    obtain rfl := (Looks.loadOperand _ _).eq_of_run hload
    exact .behind hload rfl (pushesLast_of_pushReturn (fun _ => rfl) hrest)

/-- Every call to another segment pushes the segment and then the place behind itself. -/
theorem pushesLast_of_isFarCall
    (hcall : Encoding.isFarCall opcode (Encoding.field m.nextByte) = true)
    (hopcode : Opcode.ofByte opcode = .instruction instruction)
    (h : (instruction.perform opcode modifiers).run m = (.ok (), after)) :
    PushesLast (instruction.perform opcode modifiers) m
      [m.registers.cs, (m.past (instruction.tailLength m.nextByte)).registers.ip] := by
  simp only [Encoding.isFarCall, Bool.or_eq_true, Bool.and_eq_true, beq_iff_eq] at hcall
  rcases hcall with rfl | ⟨rfl, hfield⟩
  · obtain rfl : callFar = instruction :=
      Opcode.instruction.inj ((rfl : .instruction callFar = Opcode.ofByte 0x9a).trans hopcode)
    obtain ⟨target, between, hfetch, hrest⟩ := run_bind_eq_ok h
    obtain rfl := (Reads.fetchPointer m).eq_past hfetch
    exact .behind hfetch rfl (pushesLast_of_pushFarReturn (fun _ => rfl) hrest)
  · obtain rfl : wordGroup = instruction :=
      Opcode.instruction.inj ((rfl : .instruction wordGroup = Opcode.ofByte 0xff).trans hopcode)
    obtain ⟨operands, between, hfetch, hrest⟩ := run_bind_eq_ok h
    obtain rfl := (reads_fetchOperands _ m).eq_past hfetch
    refine .behind hfetch rfl ?_
    have hoperation : WordOperation.ofIndex operands.field = .callFar := by
      rw [field_of_fetch hfetch, hfield]
      rfl
    rw [hoperation] at hrest ⊢
    obtain ⟨place, between, hplace, hrest⟩ := run_bind_eq_ok hrest
    obtain rfl := (Looks.place _ _).eq_of_run hplace
    obtain ⟨target, between, hload, hrest⟩ := run_bind_eq_ok hrest
    obtain rfl := (Looks.loadPointer _).eq_of_run hload
    exact .behind hplace rfl
      (.behind hload rfl (pushesLast_of_pushFarReturn (fun _ => rfl) hrest))

end Call

end Instruction

/-! ## All of it -/

namespace Encoding

open Machine Microprogram Instruction

namespace Head

/-- The offset behind an instruction. -/
def next (head : Head) (m : Machine) : Word := m.registers.ip + BitVec.ofNat 16 head.length

/-- A step goes by the length of the instruction in front of it. -/
structure Spans (head : Head) (m : Machine) : Prop where
  /-- Nothing but the bytes of the instruction is fetched. -/
  within : ∃ count, count ≤ head.length ∧ m.fetched = m.registers.codePointer.following count
  whole : m.Completes → m.fetched = m.registers.codePointer.following head.length
  straight : m.Completes → isTransfer head.opcode head.field = false →
    m.step.2.registers.ip = head.next m
  relative : m.Completes → isRelative head.opcode = true → ∃ number,
    m.Faces (head.bytes ++ number) ∧ head.bytes.length + number.length = head.length
      ∧ m.step.2.registers.ip
        = head.next m + if goes head.opcode m.registers then distance number else 0
  nearCall : m.Completes → isNearCall head.opcode head.field = true →
    (∃ earlier, m.accesses
      = earlier ++ GrantedAccess.pushesOf m.registers.stackPointer [head.next m])
    ∧ m.step.2.registers.sp = m.registers.sp - 2
  farCall : m.Completes → isFarCall head.opcode head.field = true →
    (∃ earlier, m.accesses
      = earlier ++ GrantedAccess.pushesOf m.registers.stackPointer [m.registers.cs, head.next m])
    ∧ m.step.2.registers.sp = m.registers.sp - 4

variable {m : Machine} {head : Head}

theorem ip_behindOpcode (head : Head) (m : Machine) (n : Nat) :
    ((head.behindOpcode m).past n).registers.ip
      = m.registers.ip + BitVec.ofNat 16 (head.modifiers.length + 1 + n) := by
  unfold behindOpcode
  rw [← past_add]
  rfl

/-- Behind its number, an instruction without operands ends. -/
theorem ip_past_behindOpcode {head : Head} (m : Machine) (h : namesOperands head.opcode = false) :
    ((head.behindOpcode m).past (numberLength head.opcode 0)).registers.ip = head.next m := by
  obtain ⟨hbytes, hlength⟩ := head.length_of_not_namesOperands h
  rw [ip_behindOpcode, next, hlength, hbytes]

theorem fetched_within (hface : m.Faces head.bytes) :
    ∃ count, count ≤ head.length ∧ m.fetched = m.registers.codePointer.following count := by
  obtain ⟨instruction, hopcode⟩ := exists_instruction head.proper
  obtain ⟨code, -, hle, hfetches, -, -⟩ := reads hface hopcode
  refine ⟨code.length, Nat.le_trans hle ?_, ?_⟩
  · by_cases hlacks : instruction = .unsupported ∨ instruction = .undefined
    · rcases hlacks with rfl | rfl <;> exact le_length head
    · obtain ⟨hsupported, hdefined⟩ := not_or.mp hlacks
      exact Nat.le_of_eq (length_eq hface hopcode hsupported hdefined).1
  · unfold fetched Machine.accesses
    rw [hfetches, GrantedAccess.map_place_fetchesOf]

/-- The words that a call pushes, seen from the whole step. -/
theorem pushes_of_pushesLast {instruction : Instruction} {modifiers : Modifiers}
    {earlier : List GrantedAccess} {words : List Word}
    (hperform : (instruction.perform head.opcode modifiers).run (head.behindOpcode m)
      = (.ok (), m.step.2))
    (haccesses : m.accesses = earlier
      ++ (instruction.perform head.opcode modifiers).accesses (head.behindOpcode m))
    (h : PushesLast (instruction.perform head.opcode modifiers) (head.behindOpcode m) words) :
    (∃ earlier, m.accesses
        = earlier ++ GrantedAccess.pushesOf m.registers.stackPointer words)
      ∧ m.step.2.registers.sp = m.registers.sp - BitVec.ofNat 16 (2 * words.length) := by
  obtain ⟨⟨before, hlast⟩, hsp⟩ := h
  rw [hperform] at hsp
  refine ⟨⟨earlier ++ before, ?_⟩, hsp⟩
  rw [haccesses, hlast, List.append_assoc]
  rfl

section Complete

variable (hcompletes : m.Completes) (hface : m.Faces head.bytes)

include hcompletes hface

theorem fetched_of_completes :
    m.fetched = m.registers.codePointer.following head.length := by
  obtain ⟨instruction, modifiers, -, hopcode, hperform, -⟩ :=
    exists_perform_of_completes hcompletes hface
  obtain ⟨hsupported, hdefined⟩ := supported_of_run_eq_ok hperform
  obtain ⟨halts, hrun⟩ := exists_of_completes hcompletes
  obtain ⟨code, -, -, hfetches, -, hlength⟩ := reads hface hopcode
  have hall : code.length = head.length :=
    (hlength halts (by rw [hrun])).trans (length_eq hface hopcode hsupported hdefined).1
  unfold fetched Machine.accesses
  rw [hfetches, GrantedAccess.map_place_fetchesOf, hall]

theorem ip_of_straight (hstraight : isTransfer head.opcode head.field = false) :
    m.step.2.registers.ip = head.next m := by
  obtain ⟨instruction, modifiers, -, hopcode, hperform, -⟩ :=
    exists_perform_of_completes hcompletes hface
  obtain ⟨hsupported, hdefined⟩ := supported_of_run_eq_ok hperform
  obtain ⟨htail, htransfers⟩ := length_eq hface hopcode hsupported hdefined
  obtain ⟨code, -, -, -, hcourse, hlength⟩ :=
    reads_perform (head.behindOpcode m) instruction head.opcode modifiers
  rw [hperform] at hcourse hlength
  rw [course, htransfers, hstraight, if_neg Bool.false_ne_true, hlength () rfl] at hcourse
  rw [hcourse.ip, ip_behindOpcode, htail, next]

theorem ip_of_isRelative (hrelative : isRelative head.opcode = true) : ∃ number,
    m.Faces (head.bytes ++ number) ∧ head.bytes.length + number.length = head.length
      ∧ m.step.2.registers.ip
        = head.next m + if goes head.opcode m.registers then distance number else 0 := by
  obtain ⟨instruction, modifiers, -, hopcode, hperform, -⟩ :=
    exists_perform_of_completes hcompletes hface
  obtain ⟨number, hnumber, hlength, hip⟩ := ip_of_relative hrelative hopcode hperform
  obtain ⟨hsupported, hdefined⟩ := supported_of_run_eq_ok hperform
  obtain ⟨hbytes, hwhole⟩ :=
    head.length_of_not_namesOperands (namesOperands_of_isRelative head.opcode hrelative)
  have hall : head.bytes.length + number.length = head.length := by
    rw [hwhole, hlength, ← ((tables_eq hopcode hsupported hdefined).2 0).1]
  refine ⟨number, faces_append_iff.mpr ⟨hface, hbytes ▸ hnumber⟩, hall, ?_⟩
  rw [hip, ip_behindOpcode, ← hbytes, hall]
  rfl

theorem pushes_of_isNearCall (hcall : isNearCall head.opcode head.field = true) :
    (∃ earlier, m.accesses
        = earlier ++ GrantedAccess.pushesOf m.registers.stackPointer [head.next m])
      ∧ m.step.2.registers.sp = m.registers.sp - 2 := by
  obtain ⟨instruction, modifiers, earlier, hopcode, hperform, haccesses⟩ :=
    exists_perform_of_completes hcompletes hface
  obtain ⟨hsupported, hdefined⟩ := supported_of_run_eq_ok hperform
  rw [← field_eq hface fun hnone field => (of_not_namesOperands _ hnone field).2.2.1] at hcall
  have hlast := pushesLast_of_isNearCall hcall hopcode hperform
  rw [ip_behindOpcode, (length_eq hface hopcode hsupported hdefined).1] at hlast
  exact pushes_of_pushesLast hperform haccesses hlast

theorem pushes_of_isFarCall (hcall : isFarCall head.opcode head.field = true) :
    (∃ earlier, m.accesses = earlier
        ++ GrantedAccess.pushesOf m.registers.stackPointer [m.registers.cs, head.next m])
      ∧ m.step.2.registers.sp = m.registers.sp - 4 := by
  obtain ⟨instruction, modifiers, earlier, hopcode, hperform, haccesses⟩ :=
    exists_perform_of_completes hcompletes hface
  obtain ⟨hsupported, hdefined⟩ := supported_of_run_eq_ok hperform
  rw [← field_eq hface fun hnone field => (of_not_namesOperands _ hnone field).2.2.2] at hcall
  have hlast := pushesLast_of_isFarCall hcall hopcode hperform
  rw [ip_behindOpcode, (length_eq hface hopcode hsupported hdefined).1] at hlast
  exact pushes_of_pushesLast hperform haccesses hlast

end Complete

theorem spans (hface : m.Faces head.bytes) : head.Spans m where
  within := fetched_within hface
  whole hcompletes := fetched_of_completes hcompletes hface
  straight hcompletes := ip_of_straight hcompletes hface
  relative hcompletes := ip_of_isRelative hcompletes hface
  nearCall hcompletes := pushes_of_isNearCall hcompletes hface
  farCall hcompletes := pushes_of_isFarCall hcompletes hface

end Head

end Encoding

namespace Machine

open Encoding Microprogram Instruction

/-- What a step fetches lies in one row from the instruction pointer on. If the step completes,
these are the bytes of an instruction; and whatever instruction lies in front of the machine, the
step goes by its length. -/
theorem step_spans_instruction (m : Machine) :
    (∃ count, m.fetched = m.registers.codePointer.following count)
      ∧ (m.Completes → ∃ head : Head, m.Faces head.bytes)
      ∧ ∀ head : Head, m.Faces head.bytes → head.Spans m := by
  refine ⟨?_, exists_head_of_completes, fun head hface => Head.spans hface⟩
  obtain ⟨n, code, -, -, hfetches, -, -⟩ := exists_reads_fetchAndPerform m
  refine ⟨code.length, ?_⟩
  unfold fetched Machine.accesses
  rw [hfetches, GrantedAccess.map_place_fetchesOf]

/-- A machine that is about to add a number of two bytes to a word of the extra segment. -/
def adding : Machine :=
  ⟨{ Registers.initial with bp := 0x102 }, .onePage [0x26, 0x81, 0x46, 0xfe, 0x34, 0x12]⟩

def addingHead : Head where
  modifiers := [0x26]
  opcode := 0x81
  operands := some 0x46
  few := by decide
  modify := by decide
  proper := by decide
  named := by decide

/-- The instruction is six bytes long: a modifier, the opcode, the operands with a displacement of
one byte, and the number. -/
theorem step_spans_instruction_adding :
    addingHead.length = 6 ∧ adding.Completes
      ∧ adding.fetched = (FarPointer.mk 0 0).following 6
      ∧ adding.step.2.registers.ip = 6 := by
  have hcompletes : adding.Completes := .inl (by decide +kernel)
  have hface : adding.Faces (addingHead.bytes ++ [0xfe, 0x34, 0x12]) :=
    faces_onePage [] rfl rfl (by decide)
  obtain ⟨-, -, hspans⟩ := step_spans_instruction adding
  have hadding := hspans addingHead (faces_append_iff.mp hface).1
  exact ⟨rfl, hcompletes, hadding.whole hcompletes, hadding.straight hcompletes rfl⟩

end Machine

end CmStream
