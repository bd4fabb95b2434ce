import CmStream.Proofs.Machine.Confinement
import CmStream.Proofs.Machine.Fetching
import CmStream.Proofs.Machine.Instructions
import CmStream.Proofs.Memory.Built
import CmStream.Sandbox

/-!
# The flags word stays well formed

No step, however it ends, spoils a well-formed flags word. So a flags word that a program saves and
loads again is the one that it has saved.
-/

namespace CmStream

namespace Machine

open Flags Instruction Microprogram

variable {m : Machine}

/-- A step leaves the flags word settled, however it ends. -/
theorem settles_step (m : Machine) : m.Settles m.step.2 := by
  obtain ⟨n, code, -, -, -, hafter, -⟩ := exists_reads_fetchAndPerform m
  rw [step_snd]
  exact hafter

theorem wellFormed_after (n : Nat) (h : WellFormed m.registers.flags) :
    WellFormed (m.after n).registers.flags := by
  induction n generalizing m with
  | zero => exact h
  | succ n ih => exact ih (h.settled (settles_step m))

/-- Steps only store bytes, so a memory that has been built stays one. -/
theorem built_after (n : Nat) (h : m.memory.Built) : (m.after n).memory.Built := by
  induction n generalizing m with
  | zero => exact h
  | succ n ih =>
    obtain ⟨stores, hmemory, -⟩ := exists_stores_run fetchAndPerform m
    refine ih ?_
    rw [step_snd, hmemory]
    exact h.storeAll stores

/-! ## Flags on the stack -/

/-- A byte that can be stored and loaded, and is none of the next two bytes of code. -/
structure Spare (m : Machine) (place : FarPointer) : Prop where
  stored : ∃ slot, m.memory.locate .write place.linear = .ok slot
  loaded : ∃ slot, m.memory.locate .read place.linear = .ok slot
  apart : ∀ slot, m.memory.locate .write place.linear = .ok slot → ∀ i, i < 2 →
    m.memory.locate .execute (m.registers.codePointer.advance (BitVec.ofNat 16 i)).linear
      ≠ .ok slot

/-- Where the next word goes on the stack. -/
def below (m : Machine) : FarPointer := ⟨m.registers.ss, m.registers.sp - 2⟩

theorem Spare.exists_slot {place : FarPointer} (h : m.Spare place) :
    ∃ slot, m.memory.locate .write place.linear = .ok slot
      ∧ m.memory.locate .read place.linear = .ok slot := by
  obtain ⟨slot, hstored⟩ := h.stored
  obtain ⟨slot', hloaded⟩ := h.loaded
  exact ⟨slot, hstored, PagedMemory.locate_unique hstored hloaded ▸ hloaded⟩

/-- A store elsewhere leaves the bytes in front of a machine as they are. -/
theorem Faces.setByteAt {code : List Byte} (h : m.Faces code) {slot : Slot} (value : Byte)
    (hapart : ∀ i, i < code.length →
      m.memory.locate .execute (m.registers.codePointer.advance (BitVec.ofNat 16 i)).linear
        ≠ .ok slot) :
    Faces { m with memory := m.memory.setByteAt slot value } code := by
  intro i hi
  have hread := h i hi
  unfold PagedMemory.read at hread ⊢
  rw [← (PagedMemory.sameShape_setByteAt m.memory slot value).locate_eq]
  cases hlocate : m.memory.locate .execute
      (m.registers.codePointer.advance (BitVec.ofNat 16 i)).linear with
  | error fault =>
    rw [hlocate] at hread
    cases hread
  | ok seen =>
    have hne : slot ≠ seen := by
      rintro rfl
      exact hapart i hi hlocate
    rw [hlocate] at hread
    exact (congrArg Except.ok (PagedMemory.byteAt_setByteAt_of_ne _ _ hne)).trans hread

theorem step_pushFlags {byte : Byte} {code : List Byte} {after : PagedMemory}
    (hface : m.Faces (byte :: code)) (hopcode : Opcode.ofByte byte = .instruction .pushFlags)
    (hstore : ∀ r, (storeWord m.below m.registers.flags).run ⟨r, m.memory⟩ = (.ok (), ⟨r, after⟩)) :
    m.step = (.continued, ⟨{ (m.skip 1).registers with sp := m.registers.sp - 2 }, after⟩) := by
  apply step_of_faces hface hopcode
  unfold perform
  dsimp only
  rw [run_bind_of_ok _ run_registers]
  exact run_push (hstore _)

theorem step_popFlags {byte : Byte} {code : List Byte} {value : Word}
    (hface : m.Faces (byte :: code)) (hopcode : Opcode.ofByte byte = .instruction .popFlags)
    (hload : ∀ r, (loadWord m.registers.stackPointer).run ⟨r, m.memory⟩
      = (.ok value, ⟨r, m.memory⟩)) :
    m.step = (.continued, m.withRegisters
      { (m.skip 1).registers with sp := m.registers.sp + 2, flags := load value }) := by
  apply step_of_faces hface hopcode
  unfold perform
  dsimp only
  rw [run_bind_of_ok (m := m.skip 1) _ (run_pop (r := (m.skip 1).registers) (hload _))]
  rfl

/-- Flags that are pushed and popped again come back as they were, and the stack pointer too. -/
theorem after_pushFlags_popFlags (hflags : WellFormed m.registers.flags)
    (hbuilt : m.memory.Built) (hface : m.Faces [0x9c, 0x9d]) (hlower : m.Spare m.below)
    (hupper : m.Spare (m.below.advance 1)) :
    m.Continues 2 ∧ (m.after 2).registers = { m.registers with ip := m.registers.ip + 2 } := by
  obtain ⟨first, hstoreFirst, hloadFirst⟩ := hlower.exists_slot
  obtain ⟨second, hstoreSecond, hloadSecond⟩ := hupper.exists_slot
  have hne : second ≠ first := hbuilt.tiled.slot_ne hstoreSecond hstoreFirst
    (PagedMemory.linear_advance_one_ne _).symm
  let flags := m.registers.flags
  let once := m.memory.setByteAt first (Word.low flags)
  let twice := once.setByteAt second (Word.high flags)
  have hshapeOnce := PagedMemory.sameShape_setByteAt m.memory first (Word.low flags)
  have hshapeTwice := PagedMemory.sameShape_setByteAt once second (Word.high flags)
  have hpush := step_pushFlags hface rfl fun _ =>
    run_storeWord flags hstoreFirst hstoreSecond
  -- The stores have left the second instruction as it was, and the flags word on the stack.
  have hnext : Machine.Faces ⟨{ (m.skip 1).registers with sp := m.registers.sp - 2 }, twice⟩
      [0x9d] := by
    have hboth : Faces { m with memory := twice } [0x9c, 0x9d] :=
      (hface.setByteAt _ (hlower.apart first hstoreFirst)).setByteAt _ fun i hi => by
        rw [← hshapeOnce.locate_eq]
        exact hupper.apart second hstoreSecond i hi
    exact hboth.tail.of_eq rfl rfl
  have hlow : twice.read .read m.below.linear = .ok (Word.low flags) := by
    unfold PagedMemory.read
    rw [← hshapeTwice.locate_eq, ← hshapeOnce.locate_eq, hloadFirst]
    exact congrArg Except.ok ((PagedMemory.byteAt_setByteAt_of_ne _ _ hne).trans
      (hbuilt.tiled.byteAt_setByteAt_self hloadFirst _))
  have hhigh : twice.read .read (m.below.advance 1).linear = .ok (Word.high flags) := by
    unfold PagedMemory.read
    rw [← hshapeTwice.locate_eq, ← hshapeOnce.locate_eq, hloadSecond]
    rw [hshapeOnce.locate_eq] at hloadSecond
    exact congrArg Except.ok
      ((hbuilt.store first _).tiled.byteAt_setByteAt_self hloadSecond _)
  have hpop := step_popFlags hnext rfl fun _ => run_loadWord hlow hhigh
  have hpath := (Reaches.single hpush).trans (Reaches.single hpop)
  refine ⟨hpath.continues, ?_⟩
  rw [hpath.arrives, Word.ofBytes_low_high, load_of_wellFormed hflags]
  simp only [withRegisters, skip, BitVec.sub_add_cancel, BitVec.add_assoc]
  rfl

/-- Flags that are kept in the upper byte of the accumulator and taken back are as they were. -/
theorem after_flagsToHigh_flagsFromHigh (hflags : WellFormed m.registers.flags)
    (hface : m.Faces [0x9f, 0x9e]) :
    m.Continues 2 ∧ (m.after 2).registers = { m.registers with
      ip := m.registers.ip + 2
      ax := Word.ofBytes (Word.low m.registers.ax) (Word.low m.registers.flags) } := by
  have hto : m.step = (.continued, (m.skip 1).withRegisters
      ((m.skip 1).registers.setByte .ah (Word.low m.registers.flags))) :=
    step_of_faces hface (show Opcode.ofByte 0x9f = .instruction .flagsToHigh from rfl) rfl
  have hnext : ((m.skip 1).withRegisters
      ((m.skip 1).registers.setByte .ah (Word.low m.registers.flags))).Faces [0x9e] :=
    hface.tail.of_eq rfl rfl
  have hfrom := step_of_faces hnext
    (show Opcode.ofByte 0x9e = .instruction .flagsFromHigh from rfl) rfl
  have hpath := (Reaches.single hto).trans (Reaches.single hfrom)
  refine ⟨hpath.continues, ?_⟩
  let kept := Word.ofBytes (Word.low m.registers.ax) (Word.low m.registers.flags)
  have hback : load (Word.ofBytes (Word.high kept) (Word.high m.registers.flags))
      = m.registers.flags := by
    rw [Word.high_ofBytes, Word.ofBytes_low_high, load_of_wellFormed hflags]
  rw [hpath.arrives]
  show { m.registers with
    ip := m.registers.ip + 1 + 1
    ax := kept
    flags := load (Word.ofBytes (Word.high kept) (Word.high m.registers.flags)) } = _
  rw [hback, BitVec.add_assoc]
  rfl

/-! ## Every state of every run -/

/-- The registers that a trace shows are those of the machine after some number of steps. -/
theorem exists_after_of_mem_traceOnto {limit : Nat} {seen : List Registers} {r : Registers}
    (h : r ∈ traceOnto seen limit m) : r ∈ seen ∨ ∃ n, r = (m.after n).registers := by
  induction limit generalizing seen m with
  | zero => exact .inl h
  | succ limit ih =>
    have hnow : r ∈ m.registers :: seen → r ∈ seen ∨ ∃ n, r = (m.after n).registers := fun hmem =>
      (List.mem_cons.mp hmem).elim (fun heq => .inr ⟨0, heq⟩) .inl
    unfold traceOnto at h
    split at h
    case h_1 after hstep =>
      rcases ih h with hmem | ⟨n, hn⟩
      · exact hnow hmem
      · refine .inr ⟨n + 1, ?_⟩
        rw [hn]
        show _ = (Machine.after n m.step.2).registers
        rw [hstep]
    case h_2 => exact hnow h

/-- The flags word is well formed when a machine is made and when a call begins. Once it is, it
stays so through every step, whatever the step comes to; and in every state of a run, to save it and
load it again, on the stack or in the accumulator, leaves it as it is. -/
theorem flags_wellFormed (m : Machine) (hflags : WellFormed m.registers.flags) :
    WellFormed Registers.initial.flags
      ∧ (∀ entry control length, WellFormed (Sandbox.entryRegisters entry control length).flags)
      ∧ (∀ n, WellFormed (m.after n).registers.flags)
      ∧ (∀ limit, WellFormed (m.run limit).2.registers.flags)
      ∧ (∀ limit, ∀ r ∈ m.trace limit, WellFormed r.flags)
      ∧ (∀ n, let s := m.after n
          m.memory.Built → s.Faces [0x9c, 0x9d] → s.Spare s.below → s.Spare (s.below.advance 1) →
            s.Continues 2
              ∧ (s.after 2).registers = { s.registers with ip := s.registers.ip + 2 })
      ∧ (∀ n, let s := m.after n
          s.Faces [0x9f, 0x9e] →
            s.Continues 2
              ∧ (s.after 2).registers = { s.registers with
                ip := s.registers.ip + 2
                ax := Word.ofBytes (Word.low s.registers.ax) (Word.low s.registers.flags) }) := by
  refine ⟨wellFormed_none, fun _ _ _ => wellFormed_none, fun n => wellFormed_after n hflags,
    fun limit => ?_, fun limit r hr => ?_,
    fun n hbuilt => after_pushFlags_popFlags (wellFormed_after n hflags) (built_after n hbuilt),
    fun n => after_flagsToHigh_flagsFromHigh (wellFormed_after n hflags)⟩
  · obtain ⟨k, hk⟩ := (ends_run limit m).exists_after
    rw [hk]
    exact wellFormed_after k hflags
  · rcases exists_after_of_mem_traceOnto (List.mem_reverse.mp hr) with hseen | ⟨n, rfl⟩
    · cases hseen
    · exact wellFormed_after n hflags

/-- A machine that is about to save all its flags on the stack. -/
def saving : Machine :=
  ⟨{ Registers.initial with sp := 0x100, flags := 0x0fd7 }, .onePage [0x9c, 0x9d]⟩

theorem flags_wellFormed_saving :
    WellFormed saving.registers.flags ∧ saving.Continues 2
      ∧ (saving.after 2).registers = { saving.registers with ip := 2 } := by
  have hflags : WellFormed saving.registers.flags := by
    constructor <;> decide
  have hspare : ∀ place : FarPointer, 2 ≤ place.linear → place.linear < pageSize →
      saving.Spare place := by
    intro place hbehind hwithin
    refine ⟨⟨_, PagedMemory.locate_onePage _ _ hwithin⟩,
      ⟨_, PagedMemory.locate_onePage _ _ hwithin⟩, fun slot hslot i hi hcode => ?_⟩
    have hsmall : (saving.registers.codePointer.advance (BitVec.ofNat 16 i)).linear = i := by
      show 0 * 16 + (0#16 + BitVec.ofNat 16 i).toNat = i
      rw [BitVec.zero_add, Word.toNat_ofNat_of_lt (by omega)]
      omega
    rw [hsmall] at hcode
    have hstack := hslot.symm.trans (PagedMemory.locate_onePage _ _ hwithin)
    have hfront := hcode.symm.trans
      (PagedMemory.locate_onePage _ _ (Nat.lt_of_lt_of_le hi (by decide)))
    cases hstack.symm.trans hfront
    omega
  obtain ⟨-, -, -, -, -, hsaves, -⟩ := flags_wellFormed saving hflags
  refine ⟨hflags, hsaves 0 (PagedMemory.built_onePage _) ?_ (hspare _ ?_ ?_) (hspare _ ?_ ?_)⟩
  · exact faces_onePage [] rfl rfl (by decide)
  all_goals decide

end Machine

end CmStream
