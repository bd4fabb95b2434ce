import CmStream.Proofs.Machine.FlagKeeping
import CmStream.Proofs.Machine.Granted
import CmStream.Proofs.Stack.Pushing

/-!
# Calls and returns

A call keeps on the stack where it is to be returned to, and a return goes there. The two need not
know anything of each other or of what comes in between: the bytes of the return place and the stack
pointer are all that passes from one to the other. Where a call goes is settled before it pushes.
-/

namespace CmStream

/-- The bytes of two words that are pushed one after the other lie differently within their pages.
-/
theorem Registers.mod_ne_of_covers {r : Registers} {address own : Nat}
    (h : (r.lowered 1).stackPointer.Covers .word address)
    (hown : r.stackPointer.Covers .word own) : address % pageSize ≠ own % pageSize := by
  obtain ⟨j, hj, rfl⟩ := h
  obtain ⟨k, hk, rfl⟩ := hown
  have hj : j < 2 := hj
  have hk : k < 2 := hk
  simp only [FarPointer.linear, FarPointer.advance, stackPointer, sp_lowered, ss_lowered, pageSize]
  bv_omega

namespace Encoding.Head

open Machine

variable {m : Machine} {head : Head}

theorem seen (hface : m.Faces head.bytes) :
    m.modifiers = head.modifiers ∧ m.opcode? = some head.opcode :=
  modifiers_of_faces (faces_bytes_iff.mp hface).1 head.modify head.proper head.few

theorem behindOpcode_eq (hface : m.Faces head.bytes) : head.behindOpcode m = m.behindOpcode := by
  unfold behindOpcode Machine.behindOpcode
  rw [(seen hface).1]

/-- Behind the byte that names operands come its displacement and a number. -/
theorem length_of_namesOperands (hface : m.Faces head.bytes)
    (h : namesOperands head.opcode = true) : head.field = Encoding.field (m.tailAt 0)
      ∧ head.length = head.modifiers.length + 1 + m.numberPlace
        + numberLength head.opcode head.field := by
  obtain ⟨operands, hsome⟩ : ∃ operands, head.operands = some operands := by
    rw [← Option.isSome_iff_exists, head.named, h]
  have hoperands := (faces_bytes_iff.mp hface).2
  rw [hsome, behindOpcode_eq hface] at hoperands
  have hnext : operands = m.tailAt 0 := by
    rw [← nextByte_behindOpcode, hoperands.nextByte_eq]
  unfold length displacementLength field bytes numberPlace
  rw [hsome, ← hnext, List.length_append]
  refine ⟨rfl, ?_⟩
  simp only [List.length_cons, Option.toList_some, List.length_nil]
  omega

/-- Instructions of the group of words have operands and no number. -/
theorem seen_wordGroup (hface : m.Faces head.bytes) (hopcode : head.opcode = 0xff) :
    head.field = Encoding.field (m.tailAt 0)
      ∧ (m.behindOpcode.past m.numberPlace).registers.ip = head.next m := by
  have hoperands : namesOperands head.opcode = true := by
    rw [hopcode]
    rfl
  have hnumber : numberLength 0xff head.field = 0 := rfl
  obtain ⟨hseen, hlength⟩ := length_of_namesOperands hface hoperands
  rw [hopcode, hnumber, Nat.add_zero] at hlength
  refine ⟨hseen, ?_⟩
  rw [← behindOpcode_eq hface, ip_behindOpcode, ← hlength]
  rfl

end Encoding.Head

namespace Machine

open Encoding Instruction Microprogram PagedMemory

/-- The words that a call keeps on the stack: the offset behind it, and above it the segment for a
call to another one. -/
def returnWords (far : Bool) : Nat := if far then 2 else 1

/-- The instruction in front of the machine is a call, within the segment or to another one. This is
where it goes, by what registers and memory hold before the call. -/
inductive Calls (m : Machine) (head : Head) : (far : Bool) → FarPointer → Prop
  | relative (opcode : head.opcode = 0xe8) :
      Calls m head false ⟨m.registers.cs, head.next m + m.numberAt .word 0⟩
  | operand (opcode : head.opcode = 0xff) (field : head.field = 2) :
      Calls m head false ⟨m.registers.cs, m.formValue .word⟩
  | direct (opcode : head.opcode = 0x9a) :
      Calls m head true ⟨m.numberAt .word 2, m.numberAt .word 0⟩
  | pointer (opcode : head.opcode = 0xff) (field : head.field = 3) :
      Calls m head true
        ⟨m.memory.seeData .word (m.formPlace.advance 2), m.memory.seeData .word m.formPlace⟩

/-- The instruction in front of the machine is a return, within the segment or to another one, that
gives back as many bytes of arguments. -/
inductive Returns (m : Machine) : (far : Bool) → (released : Word) → Prop
  | near (begins : m.opcode? = some 0xc3) : Returns m false 0
  | nearReleasing (begins : m.opcode? = some 0xc2) : Returns m false (m.numberAt .word 0)
  | far (begins : m.opcode? = some 0xcb) : Returns m true 0
  | farReleasing (begins : m.opcode? = some 0xca) : Returns m true (m.numberAt .word 0)

variable {m between after : Machine} {head : Head} {far : Bool} {target : FarPointer}

/-! ## Fetching -/

/-- For registers that are given another instruction pointer it makes no difference what has been
fetched. -/
theorem change_past_behindOpcode (change : Registers → Registers)
    (hjumps : ∀ r ip, change { r with ip := ip } = change r) (n : Nat) (m : Machine) :
    { m.behindOpcode.past n with registers := change (m.behindOpcode.past n).registers }
      = { m with registers := change m.registers } :=
  congrArg (Machine.mk · m.memory)
    ((hjumps m.behindOpcode.registers _).trans (hjumps m.registers _))

theorem word?_past_behindOpcode (n i : Nat) (m : Machine) :
    (m.behindOpcode.past n).memory.word? ((m.behindOpcode.past n).registers.wordPlace i)
      = m.memory.word? (m.registers.wordPlace i) := by
  simp only [behindOpcode, past, skip, Registers.wordPlace, Registers.stackPointer]

/-! ## Pointers -/

theorem seen_fetchPointer {pointer : FarPointer}
    (h : fetchPointer.run m.behindOpcode = (.ok pointer, after)) :
    pointer = ⟨m.numberAt .word 2, m.numberAt .word 0⟩ ∧ after = m.behindOpcode.past 4 := by
  obtain ⟨offset, between, hoffset, hrest⟩ := run_bind_eq_ok h
  obtain ⟨rfl, rfl⟩ := seen_fetchWord hoffset
  obtain ⟨segment, last, hsegment, hvalue⟩ := run_bind_eq_ok hrest
  obtain ⟨rfl, rfl⟩ := seen_fetchWord hsegment
  cases hvalue
  simp only [← past_add, nextByte_behindOpcode_past, nextByte_behindOpcode]
  exact ⟨rfl, trivial⟩

theorem seen_loadPointer {place pointer : FarPointer}
    (h : (loadPointer place).run m = (.ok pointer, after)) :
    pointer = ⟨m.memory.seeData .word (place.advance 2), m.memory.seeData .word place⟩
      ∧ after = m := by
  obtain ⟨offset, between, hoffset, hrest⟩ := run_bind_eq_ok h
  obtain ⟨rfl, rfl⟩ := @seen_loadData _ _ .word _ _ hoffset
  obtain ⟨segment, last, hsegment, hvalue⟩ := run_bind_eq_ok hrest
  obtain ⟨rfl, rfl⟩ := @seen_loadData _ _ .word _ _ hsegment
  cases hvalue
  exact ⟨rfl, rfl⟩

/-- An operand that has a place is the place that the bytes behind the opcode name. -/
theorem seen_place {opcode : Byte} {place : FarPointer}
    (h : (m.formOperand.place opcode).run between = (.ok place, after)) :
    place = m.formPlace ∧ after = between := by
  unfold formOperand at h
  split at h
  case isTrue => cases h
  case isFalse =>
    cases h
    exact ⟨rfl, rfl⟩

/-! ## Keeping the return place -/

/-- The place at which a machine stands is on the stack. -/
structure Keeps (m : Machine) (far : Bool) (after : Machine) : Prop where
  registers : after.registers = m.registers.lowered (returnWords far)
  offset : after.memory.word? (after.registers.wordPlace 0) = some m.registers.ip
  segment : far = true →
    after.memory.word? (after.registers.wordPlace 1) = some m.registers.cs

theorem keeps_of_pushReturn (htiled : m.memory.Tiled)
    (h : pushReturn.run m = (.ok (), after)) : Keeps m false after := by
  have hpush : (push m.registers.ip).run m = (.ok (), after) := h
  have hpushed := pushed_of_run htiled hpush
  exact ⟨hpushed.registers, hpushed.word, fun hfar => absurd hfar Bool.false_ne_true⟩

theorem keeps_of_pushFarReturn (htiled : m.memory.Tiled)
    (h : pushFarReturn.run m = (.ok (), after)) : Keeps m true after := by
  have hboth : (push m.registers.cs >>= fun _ => pushReturn).run m = (.ok (), after) := h
  obtain ⟨⟨⟩, between, hsegment, hoffset⟩ := run_bind_eq_ok hboth
  have hfirst := pushed_of_run htiled hsegment
  have htiled' := htiled.of_sameShape hfirst.stores.outside.shape
  have hpush : (push between.registers.ip).run between = (.ok (), after) := hoffset
  have hsecond := pushed_of_run htiled' hpush
  have hip : between.registers.ip = m.registers.ip := by
    rw [hfirst.registers]
    rfl
  refine ⟨?_, hip ▸ hsecond.word, fun _ => ?_⟩
  · rw [hsecond.registers, hfirst.registers, Registers.lowered_add]
    rfl
  · -- The offset has not been stored on the segment, though bytes may lie behind several addresses.
    rw [hsecond.registers, Registers.wordPlace_lowered_succ, ← hfirst.word]
    apply hsecond.stores.outside.word?_eq_of_mod_ne htiled'
    intro address haddress own hown
    rw [hsecond.registers] at haddress
    rw [Registers.wordPlace_zero] at hown
    exact Registers.mod_ne_of_covers haddress hown

/-- The offset of the place behind a call, and for a call to another segment the segment, as they
are read again where the bytes that have been pushed are still the same. -/
theorem Keeps.kept {back : Machine} (h : Keeps m far after)
    (hstack : back.registers.stackPointer = after.registers.stackPointer)
    (hbytes : ∀ address, m.registers.CoversBelow (returnWords far) address →
      back.memory.byte? address = after.memory.byte? address) :
    back.memory.word? (back.registers.wordPlace 0) = some m.registers.ip
      ∧ (far = true → back.memory.word? (back.registers.wordPlace 1) = some m.registers.cs) := by
  have hplace (i : Nat) : back.registers.wordPlace i = after.registers.wordPlace i := by
    rw [Registers.wordPlace, hstack, Registers.wordPlace]
  have hword {i : Nat} (hi : i < returnWords far) : back.memory.word? (back.registers.wordPlace i)
      = after.memory.word? (after.registers.wordPlace i) := by
    rw [hplace]
    apply word?_congr
    intro address haddress
    rw [h.registers] at haddress
    exact hbytes address (Registers.coversBelow_of_wordPlace hi haddress)
  constructor
  · rw [hword (by unfold returnWords; split <;> decide), h.offset]
  · intro hfar
    rw [hword (by rw [hfar]; decide), h.segment hfar]

/-! ## Calls -/

/-- A call within the segment stays in it. -/
theorem Calls.segment_eq (h : m.Calls head far target) (hnear : far = false) :
    target.segment = m.registers.cs := by
  cases h with
  | relative => rfl
  | operand => rfl
  | direct => cases hnear
  | pointer => cases hnear

/-- A jump within the segment from a machine that has kept its place: the code segment is still
what it was. -/
theorem Keeps.jump (h : Keeps m far after) (offset : Word) :
    { after.registers with ip := offset }
      = { after.registers with cs := m.registers.cs, ip := offset } := by
  rw [h.registers]
  rfl

/-- The step keeps the place behind its bytes on the stack, and then goes to the target. -/
def Leaves (m : Machine) (head : Head) (far : Bool) (target : FarPointer) : Prop :=
  ∃ count kept, (m.behindOpcode.past count).registers.ip = head.next m
    ∧ Keeps (m.behindOpcode.past count) far kept
    ∧ m.step.2 = { kept with registers := { kept.registers with
        cs := target.segment, ip := target.offset } }

section Leaving

variable (hbuilt : m.memory.Built) (hface : m.Faces head.bytes)
  (hcontinued : m.step.1 = .continued)

include hbuilt hface hcontinued

theorem leaves_of_relative (hopcode : head.opcode = 0xe8) :
    m.Leaves head false ⟨m.registers.cs, head.next m + m.numberAt .word 0⟩ := by
  have hbegins := (Head.seen hface).2
  have hnext := Head.ip_past_behindOpcode m (by rw [hopcode]; rfl)
  rw [Head.behindOpcode_eq hface, hopcode] at hnext
  rw [hopcode] at hbegins
  obtain ⟨modifiers, -, hrun⟩ := exists_performed_of_ofByte (.inl hcontinued) hbegins
    (rfl : Opcode.ofByte 0xe8 = .instruction .call)
  obtain ⟨distance, between, hfetch, hrest⟩ := run_bind_eq_ok hrun
  obtain ⟨rfl, rfl⟩ := seen_fetchWord hfetch
  obtain ⟨⟨⟩, kept, hpush, hjump⟩ := run_bind_eq_ok hrest
  have hkeeps : Keeps (m.behindOpcode.past 2) false kept := keeps_of_pushReturn hbuilt.tiled hpush
  -- The distance counts from the place that has been kept.
  have hip : kept.registers.ip = head.next m := by
    rw [hkeeps.registers, ← hnext]
    rfl
  rw [nextByte_behindOpcode, nextByte_behindOpcode_past] at hjump
  refine ⟨2, kept, hnext, hkeeps, (congrArg Prod.snd hjump).symm.trans ?_⟩
  exact congrArg (fun r => Machine.mk r kept.memory) (hip ▸ hkeeps.jump _)

theorem leaves_of_operand (hopcode : head.opcode = 0xff) (hfield : head.field = 2) :
    m.Leaves head false ⟨m.registers.cs, m.formValue .word⟩ := by
  have hbegins := (Head.seen hface).2
  obtain ⟨hseen, hnext⟩ := Head.seen_wordGroup hface hopcode
  rw [hopcode] at hbegins
  obtain ⟨modifiers, hoverride, hrun⟩ := exists_performed_of_ofByte (.inl hcontinued) hbegins
    (rfl : Opcode.ofByte 0xff = .instruction .wordGroup)
  obtain ⟨operands, between, hfetch, hrest⟩ := run_bind_eq_ok hrun
  rw [hoverride] at hfetch
  obtain ⟨rfl, rfl⟩ := seen_fetchOperands hfetch
  dsimp only at hrest
  rw [← hseen, hfield] at hrest
  -- The operand is taken before anything is pushed, be it the stack pointer or what lies there.
  obtain ⟨value, between, hload, hlast⟩ := run_bind_eq_ok hrest
  obtain ⟨rfl, rfl⟩ := seen_loadForm hload
  obtain ⟨⟨⟩, kept, hpush, hjump⟩ := run_bind_eq_ok hlast
  have hkeeps : Keeps (m.behindOpcode.past m.numberPlace) false kept :=
    keeps_of_pushReturn hbuilt.tiled hpush
  refine ⟨_, kept, hnext, hkeeps, (congrArg Prod.snd hjump).symm.trans ?_⟩
  exact congrArg (fun r => Machine.mk r kept.memory) (hkeeps.jump _)

theorem leaves_of_direct (hopcode : head.opcode = 0x9a) :
    m.Leaves head true ⟨m.numberAt .word 2, m.numberAt .word 0⟩ := by
  have hbegins := (Head.seen hface).2
  have hnext := Head.ip_past_behindOpcode m (by rw [hopcode]; rfl)
  rw [Head.behindOpcode_eq hface, hopcode] at hnext
  rw [hopcode] at hbegins
  obtain ⟨modifiers, -, hrun⟩ := exists_performed_of_ofByte (.inl hcontinued) hbegins
    (rfl : Opcode.ofByte 0x9a = .instruction .callFar)
  obtain ⟨target, between, hfetch, hrest⟩ := run_bind_eq_ok hrun
  obtain ⟨rfl, rfl⟩ := seen_fetchPointer hfetch
  obtain ⟨⟨⟩, kept, hpush, hjump⟩ := run_bind_eq_ok hrest
  have hkeeps : Keeps (m.behindOpcode.past 4) true kept :=
    keeps_of_pushFarReturn hbuilt.tiled hpush
  exact ⟨4, kept, hnext, hkeeps, (congrArg Prod.snd hjump).symm⟩

theorem leaves_of_pointer (hopcode : head.opcode = 0xff) (hfield : head.field = 3) :
    m.Leaves head true
      ⟨m.memory.seeData .word (m.formPlace.advance 2), m.memory.seeData .word m.formPlace⟩ := by
  have hbegins := (Head.seen hface).2
  obtain ⟨hseen, hnext⟩ := Head.seen_wordGroup hface hopcode
  rw [hopcode] at hbegins
  obtain ⟨modifiers, hoverride, hrun⟩ := exists_performed_of_ofByte (.inl hcontinued) hbegins
    (rfl : Opcode.ofByte 0xff = .instruction .wordGroup)
  obtain ⟨operands, between, hfetch, hrest⟩ := run_bind_eq_ok hrun
  rw [hoverride] at hfetch
  obtain ⟨rfl, rfl⟩ := seen_fetchOperands hfetch
  dsimp only at hrest
  rw [← hseen, hfield] at hrest
  obtain ⟨place, between, hplace, hlast⟩ := run_bind_eq_ok hrest
  obtain ⟨rfl, rfl⟩ := seen_place hplace
  obtain ⟨target, between, hload, hlast⟩ := run_bind_eq_ok hlast
  obtain ⟨rfl, rfl⟩ := seen_loadPointer hload
  obtain ⟨⟨⟩, kept, hpush, hjump⟩ := run_bind_eq_ok hlast
  have hkeeps : Keeps (m.behindOpcode.past m.numberPlace) true kept :=
    keeps_of_pushFarReturn hbuilt.tiled hpush
  exact ⟨_, kept, hnext, hkeeps, (congrArg Prod.snd hjump).symm⟩

theorem leaves_of_calls (hcalls : m.Calls head far target) : m.Leaves head far target := by
  cases hcalls with
  | relative hopcode => exact leaves_of_relative hbuilt hface hcontinued hopcode
  | operand hopcode hfield => exact leaves_of_operand hbuilt hface hcontinued hopcode hfield
  | direct hopcode => exact leaves_of_direct hbuilt hface hcontinued hopcode
  | pointer hopcode hfield => exact leaves_of_pointer hbuilt hface hcontinued hopcode hfield

end Leaving

/-! ## Returns -/

theorem seen_fetchRelease {releases : Bool} {count : Word}
    (h : (fetchRelease releases).run m.behindOpcode = (.ok count, after)) :
    count = (if releases then m.numberAt .word 0 else 0)
      ∧ ∃ behind, after = m.behindOpcode.past behind := by
  cases releases with
  | false =>
    cases h
    exact ⟨rfl, 0, (past_zero _).symm⟩
  | true =>
    obtain ⟨rfl, rfl⟩ := seen_fetchWord h
    rw [nextByte_behindOpcode, nextByte_behindOpcode_past]
    exact ⟨rfl, 2, rfl⟩

/-- A return within the segment takes one word from the stack. -/
theorem performReturn_eq_ok {releases : Bool}
    (h : (performReturn releases).run m = (.ok (), after)) : ∃ count between offset,
      (fetchRelease releases).run m = (.ok count, between)
        ∧ between.memory.word? (between.registers.wordPlace 0) = some offset
        ∧ after = { between with registers := { between.registers with
            ip := offset, sp := between.registers.sp + 2 + count } } := by
  obtain ⟨count, between, hfetch, hrest⟩ := run_bind_eq_ok h
  obtain ⟨offset, popped, hpop, hlast⟩ := run_bind_eq_ok hrest
  obtain ⟨hword, rfl⟩ := pop_eq_ok hpop
  cases hlast
  exact ⟨count, between, offset, hfetch, hword, rfl⟩

/-- A return to another segment takes two words from the stack, the offset first. -/
theorem performReturnFar_eq_ok {releases : Bool}
    (h : (performReturnFar releases).run m = (.ok (), after)) : ∃ count between offset segment,
      (fetchRelease releases).run m = (.ok count, between)
        ∧ between.memory.word? (between.registers.wordPlace 0) = some offset
        ∧ between.memory.word? (between.registers.wordPlace 1) = some segment
        ∧ after = { between with registers := { between.registers with
            cs := segment, ip := offset, sp := between.registers.sp + 4 + count } } := by
  obtain ⟨count, between, hfetch, hrest⟩ := run_bind_eq_ok h
  obtain ⟨offset, popped, hfirst, hrest⟩ := run_bind_eq_ok hrest
  obtain ⟨hoffset, rfl⟩ := pop_eq_ok hfirst
  obtain ⟨⟨⟩, jumped, hjump, hrest⟩ := run_bind_eq_ok hrest
  cases hjump
  obtain ⟨segment, popped, hsecond, hlast⟩ := run_bind_eq_ok hrest
  obtain ⟨hsegment, rfl⟩ := pop_eq_ok hsecond
  rw [Registers.wordPlace_zero] at hsegment
  cases hlast
  have hsp : between.registers.sp + 2 + 2 = between.registers.sp + 4 := BitVec.add_assoc _ _ _
  exact ⟨count, between, offset, segment, hfetch, hoffset, hsegment, by rw [← hsp]⟩

variable {opcode : Byte} {releases : Bool} {released offset segment : Word}

theorem step_of_returnNear (hbegins : m.opcode? = some opcode)
    (hopcode : Opcode.ofByte opcode = .instruction (.returnNear releases))
    (hcontinued : m.step.1 = .continued)
    (hoffset : m.memory.word? (m.registers.wordPlace 0) = some offset) :
    m.step.2 = { m with registers := { m.registers with
      ip := offset
      sp := m.registers.sp + 2 + if releases then m.numberAt .word 0 else 0 } } := by
  obtain ⟨modifiers, -, hrun⟩ := exists_performed_of_ofByte (.inl hcontinued) hbegins hopcode
  obtain ⟨count, between, found, hfetch, hword, hafter⟩ := performReturn_eq_ok hrun
  obtain ⟨rfl, behind, rfl⟩ := seen_fetchRelease hfetch
  rw [word?_past_behindOpcode] at hword
  obtain rfl : offset = found := Option.some.inj (hoffset.symm.trans hword)
  let change (r : Registers) : Registers :=
    { r with ip := offset, sp := r.sp + 2 + if releases then m.numberAt .word 0 else 0 }
  exact hafter.trans (change_past_behindOpcode change (fun _ _ => rfl) behind m)

theorem step_of_returnFar (hbegins : m.opcode? = some opcode)
    (hopcode : Opcode.ofByte opcode = .instruction (.returnFar releases))
    (hcontinued : m.step.1 = .continued)
    (hoffset : m.memory.word? (m.registers.wordPlace 0) = some offset)
    (hsegment : m.memory.word? (m.registers.wordPlace 1) = some segment) :
    m.step.2 = { m with registers := { m.registers with
      cs := segment
      ip := offset
      sp := m.registers.sp + 4 + if releases then m.numberAt .word 0 else 0 } } := by
  obtain ⟨modifiers, -, hrun⟩ := exists_performed_of_ofByte (.inl hcontinued) hbegins hopcode
  obtain ⟨count, between, found, selected, hfetch, hword, hword', hafter⟩ :=
    performReturnFar_eq_ok hrun
  obtain ⟨rfl, behind, rfl⟩ := seen_fetchRelease hfetch
  rw [word?_past_behindOpcode] at hword hword'
  obtain rfl : offset = found := Option.some.inj (hoffset.symm.trans hword)
  obtain rfl : segment = selected := Option.some.inj (hsegment.symm.trans hword')
  let change (r : Registers) : Registers := { r with
    cs := segment
    ip := offset
    sp := r.sp + 4 + if releases then m.numberAt .word 0 else 0 }
  exact hafter.trans (change_past_behindOpcode change (fun _ _ => rfl) behind m)

/-- The step of a return, by the words on the stack. A return within the segment stays in it. -/
theorem step_returns (hreturns : m.Returns far released)
    (hcontinued : m.step.1 = .continued)
    (hoffset : m.memory.word? (m.registers.wordPlace 0) = some offset)
    (hnear : far = false → m.registers.cs = segment)
    (hfar : far = true → m.memory.word? (m.registers.wordPlace 1) = some segment) :
    m.step.2 = ⟨{ m.registers with
      cs := segment
      ip := offset
      sp := m.registers.sp + BitVec.ofNat 16 (2 * returnWords far) + released }, m.memory⟩ := by
  cases hreturns with
  | near hbegins =>
    rw [step_of_returnNear hbegins rfl hcontinued hoffset, ← hnear rfl]
    rfl
  | nearReleasing hbegins =>
    rw [step_of_returnNear hbegins rfl hcontinued hoffset, ← hnear rfl]
    rfl
  | far hbegins =>
    rw [step_of_returnFar hbegins rfl hcontinued hoffset (hfar rfl)]
    rfl
  | farReleasing hbegins =>
    rw [step_of_returnFar hbegins rfl hcontinued hoffset (hfar rfl)]
    rfl

/-- A call goes to its target as it was before, though the stack pointer names it or the words that
are pushed lie on it, and a return that matches the call goes back behind it: in between there may
be any steps that leave these words as they are and come back to the stack pointer, for a return
within the segment also to the segment. The stack pointer is then what it was before the call, and
the arguments are released. -/
theorem step_call_return (hbuilt : m.memory.Built) (hface : m.Faces head.bytes)
    (hcalls : m.Calls head far target) (hcontinued : m.step.1 = .continued) :
    let called := m.step.2
    called.registers = { m.registers.lowered (returnWords far) with
        cs := target.segment, ip := target.offset }
      ∧ ∀ (n : Nat) (released : Word), let back := called.after n
        back.Returns far released → back.step.1 = .continued →
        back.registers.stackPointer = called.registers.stackPointer →
        (far = false → back.registers.cs = called.registers.cs) →
        (∀ address, m.registers.CoversBelow (returnWords far) address →
          back.memory.byte? address = called.memory.byte? address) →
        back.step.2 = ⟨{ back.registers with
          cs := m.registers.cs
          ip := head.next m
          sp := m.registers.sp + released }, back.memory⟩ := by
  obtain ⟨count, kept, hnext, hkeeps, hcalled⟩ :=
    leaves_of_calls hbuilt hface hcontinued hcalls
  have hcalledRegisters : m.step.2.registers = { m.registers.lowered (returnWords far) with
      cs := target.segment, ip := target.offset } := by
    let change (r : Registers) : Registers :=
      { r.lowered (returnWords far) with cs := target.segment, ip := target.offset }
    rw [hcalled, hkeeps.registers]
    exact congrArg registers (change_past_behindOpcode change (fun _ _ => rfl) count m)
  have hmemory : m.step.2.memory = kept.memory := by rw [hcalled]
  refine ⟨hcalledRegisters, fun n released hreturns hback hstack hcs hbytes => ?_⟩
  have hkeptStack : (m.step.2.after n).registers.stackPointer = kept.registers.stackPointer := by
    rw [hstack, hcalledRegisters, hkeeps.registers]
    rfl
  rw [hmemory] at hbytes
  -- What the return pops is what the call has pushed.
  obtain ⟨hoffset, hsegment⟩ := hkeeps.kept hkeptStack hbytes
  rw [hnext] at hoffset
  have hnear (hfar : far = false) : (m.step.2.after n).registers.cs = m.registers.cs := by
    rw [hcs hfar, hcalledRegisters]
    exact hcalls.segment_eq hfar
  have hraised : (m.step.2.after n).registers.sp + BitVec.ofNat 16 (2 * returnWords far)
      = m.registers.sp := by
    rw [(FarPointer.mk.inj hstack).2, hcalledRegisters]
    exact BitVec.sub_add_cancel _ _
  rw [step_returns hreturns hback hoffset hnear hsegment, hraised]

/-- A machine that is about to call through the word at which its stack pointer will be: that names
an instruction which returns from there and releases six bytes. -/
def callingThroughStack : Machine :=
  ⟨{ Registers.initial with sp := 10, bp := 10 },
    .onePage [0xff, 0x56, 0xfe, 0x90, 0xc2, 6, 0, 0, 4, 0]⟩

theorem step_call_return_callingThroughStack :
    callingThroughStack.step.2.registers.ip = 4 ∧ callingThroughStack.step.2.registers.sp = 8
      ∧ callingThroughStack.step.2.step.2.registers.ip = 3
      ∧ callingThroughStack.step.2.step.2.registers.sp = 16 := by
  let head : Head := ⟨[], 0xff, some 0x56, by decide, by decide, rfl, rfl⟩
  have hface : callingThroughStack.Faces ([0xff, 0x56] ++ [0xfe, 0x90, 0xc2, 6, 0, 0, 4, 0]) :=
    faces_onePage [] rfl rfl (by decide)
  obtain ⟨hcontinued, htarget, hbegins, hreleased, hgoesOn⟩ :
      callingThroughStack.step.1 = .continued ∧ callingThroughStack.formValue .word = 4
        ∧ callingThroughStack.step.2.opcode? = some 0xc2
        ∧ callingThroughStack.step.2.numberAt .word 0 = 6
        ∧ callingThroughStack.step.2.step.1 = .continued := by
    decide +kernel
  have hcalls : callingThroughStack.Calls head false ⟨0, 4⟩ := htarget ▸ .operand rfl rfl
  have hreturns : callingThroughStack.step.2.Returns false 6 := hreleased ▸ .nearReleasing hbegins
  obtain ⟨hcalled, hreturned⟩ :=
    step_call_return (PagedMemory.built_onePage _) (faces_append_iff.mp hface).1 hcalls hcontinued
  -- No step comes in between.
  have hback := hreturned 0 6
  rw [after_zero] at hback
  have hend := congrArg Machine.registers
    (hback hreturns hgoesOn rfl (fun _ => rfl) fun _ _ => rfl)
  exact ⟨congrArg Registers.ip hcalled, congrArg Registers.sp hcalled,
    (congrArg Registers.ip hend).trans (by decide), congrArg Registers.sp hend⟩

end Machine

end CmStream
