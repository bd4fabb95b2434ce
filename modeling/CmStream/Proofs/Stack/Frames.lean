import CmStream.Proofs.Machine.Synonyms
import CmStream.Proofs.Stack.Sequences

/-!
# Frames

An instruction that enters a frame keeps the base pointer on the stack, and behind it, for a frame
that is nested in others, the base pointers of those and its own: the display. The one that leaves a
frame finds the stack pointer in the base pointer and the base pointer on the stack, so it undoes
the other whatever has come in between, as long as that has left these two alone.
-/

namespace CmStream

namespace Registers

theorem CoversBelow.lowered {r : Registers} {words more address : Nat}
    (h : (r.lowered more).CoversBelow words address) : r.CoversBelow (more + words) address := by
  obtain ⟨place, ⟨i, hi, rfl⟩, rfl⟩ := h
  refine ⟨_, ⟨2 * more + i, by omega, rfl⟩, ?_⟩
  simp only [ss_lowered, sp_lowered]
  congr 2
  bv_omega

/-- A word that has `i` others between it and the top of some words lies among these. -/
theorem coversBelow_of_covers_word {r : Registers} {i words address : Nat} (hi : i < words)
    (h : (FarPointer.mk r.ss (r.sp - BitVec.ofNat 16 (2 * (i + 1)))).Covers .word address) :
    r.CoversBelow words address :=
  (coversBelow_of_covers h).mono hi

end Registers

namespace Machine

open Encoding Instruction Microprogram PagedMemory

/-- The machine with another base pointer. -/
def based (bp : Word) (m : Machine) : Machine :=
  { m with registers := { m.registers with bp := bp } }

variable {m now : Machine} {most : Nat} {stack : List Word}

/-- One word of the display: the base pointer goes down to it, and it is pushed. -/
theorem run_copyFramePointers_succ {between : Machine} {value : Word} (count : Nat)
    (hopen : now.memory.SegmentOpen now.registers.ss)
    (hword : now.memory.word? ⟨now.registers.ss, now.registers.bp - 2⟩ = some value)
    (hpush : (push value).run (now.based (now.registers.bp - 2)) = (.ok (), between)) :
    (copyFramePointers (count + 1)).run now = (copyFramePointers count).run between := by
  have hreadable (address : Nat) (haddress :
      (FarPointer.mk now.registers.ss (now.registers.bp - 2)).Covers .word address) :
      now.memory.Permits .read address := (hopen.permits haddress).1
  have hload := run_loadWord_of_word? (m := now.based (now.registers.bp - 2)) hword hreadable
  rw [copyFramePointers, run_bind_of_ok _ (run_modifyRegisters _), run_bind_of_ok _ run_registers]
  exact (run_bind_of_ok _ hload).trans (run_bind_of_ok _ hpush)

namespace Stacked

theorem based (h : Stacked m most stack now) (bp : Word) :
    Stacked (m.based bp) most stack (now.based bp) :=
  h.change (fun r => { r with bp := bp }) (fun _ _ => rfl) fun _ => rfl

/-- A word of the stack segment is what it was in the beginning, if nothing has been pushed there.
-/
theorem word?_eq (h : Stacked m most stack now) (hunaliased : m.memory.Unaliased)
    {place : FarPointer}
    (hapart : ∀ address, place.Covers .word address → ¬ m.registers.CoversBelow most address) :
    now.memory.word? place = m.memory.word? place :=
  h.outside.word?_eq hunaliased hapart

/-- The base pointer goes down word by word, and so does the stack pointer: what the one has come to
is pushed by way of the other. These are the words of the display as they were, if none of them is
pushed to. -/
theorem exists_run_copyFramePointers (count : Nat) (h : Stacked m most stack now)
    (hbuilt : m.memory.Built) (hunaliased : m.memory.Unaliased)
    (hopen : m.memory.SegmentOpen m.registers.ss)
    (hroom : stack.length + count ≤ StackOperation.capacity) :
    ∃ (last : Machine) (words : List Word),
      (copyFramePointers count).run now = (.ok (), last) ∧ words.length = count
      ∧ Stacked (m.based (m.registers.bp - BitVec.ofNat 16 (2 * count)))
        (max most (stack.length + count)) (words.reverse ++ stack) last
      ∧ ((∀ address, m.registers.framed.CoversBelow count address →
          ¬ m.registers.CoversBelow (max most (stack.length + count)) address) →
        ∀ i, i < count → m.memory.word?
          ⟨m.registers.ss, m.registers.bp - BitVec.ofNat 16 (2 * (i + 1))⟩ = words[i]?) := by
  -- The machine at the beginning is taken along with the base pointer as it moves.
  induction count generalizing m now most stack with
  | zero =>
    have hbased : m.based (m.registers.bp - BitVec.ofNat 16 (2 * 0)) = m := by
      unfold Machine.based
      rw [Nat.mul_zero, BitVec.sub_zero]
    refine ⟨now, [], rfl, rfl, ?_, fun _ i hi => absurd hi (Nat.not_lt_zero i)⟩
    rw [hbased]
    exact h.mono (Nat.le_max_left _ _)
  | succ count ih =>
    have hframe : now.registers.bp = m.registers.bp ∧ now.registers.ss = m.registers.ss := by
      rw [h.registers]
      exact ⟨rfl, rfl⟩
    have hdown := h.based (m.registers.bp - 2)
    obtain ⟨value, hword⟩ := (h.segmentOpen hopen).exists_word? (now.registers.bp - 2)
    obtain ⟨between, hpush, hbetween⟩ :=
      hdown.exists_push hbuilt hunaliased hopen (by omega) value
    rw [← hframe.1] at hpush
    obtain ⟨last, words, hrun, hlength, hlast, hcopied⟩ :=
      ih hbetween hbuilt hunaliased hopen (by rw [List.length_cons]; omega)
    have hcount : max (max most (stack.length + 1)) ((value :: stack).length + count)
        = max most (stack.length + (count + 1)) := by
      rw [List.length_cons]
      omega
    have hlower (i : Nat) : (m.based (m.registers.bp - 2)).registers.bp
        - BitVec.ofNat 16 (2 * i) = m.registers.bp - BitVec.ofNat 16 (2 * (i + 1)) := by
      show m.registers.bp - 2 - _ = _
      bv_omega
    rw [hcount] at hlast hcopied
    simp only [hlower] at hlast hcopied
    refine ⟨last, value :: words, ?_, congrArg Nat.succ hlength, ?_, fun hapart i hi => ?_⟩
    · rw [run_copyFramePointers_succ count (h.segmentOpen hopen) hword hpush, hrun]
    · rw [List.reverse_cons, List.append_assoc]
      exact hlast
    · -- The first word is copied here, the others from the lower base pointer on.
      cases i with
      | zero =>
        rw [hframe.1, hframe.2, h.word?_eq hunaliased] at hword
        · exact hword
        · intro address haddress hbelow
          refine hapart address ?_ (hbelow.mono (Nat.le_max_left _ _))
          exact Registers.coversBelow_of_covers_word (Nat.succ_pos count) haddress
      | succ i =>
        refine hcopied (fun address haddress hbelow => ?_) i (Nat.lt_of_succ_lt_succ hi)
        refine hapart address ?_ hbelow
        have hnext : (m.registers.framed.lowered 1).CoversBelow count address :=
          .of_stackPointer_eq rfl haddress
        have hmore := hnext.lowered
        rwa [Nat.add_comm] at hmore

/-- Where a word on the stack lies, counted from the one that was pushed first. -/
theorem word?_frame {depth i : Nat} (h : Stacked m most stack now)
    (hlength : stack.length = depth + 1) (hi : i ≤ depth) :
    now.memory.word? ⟨m.registers.ss, m.registers.sp - 2 - BitVec.ofNat 16 (2 * i)⟩
      = stack[depth - i]? := by
  rw [← h.words (depth - i) (by omega), h.registers, hlength]
  refine congrArg (fun offset => now.memory.word? ⟨m.registers.ss, offset⟩) ?_
  show _ = m.registers.sp - BitVec.ofNat 16 (2 * (depth + 1)) + BitVec.ofNat 16 (2 * (depth - i))
  bv_omega

end Stacked

/-! ## Entering -/

/-- The words that a new frame begins with, the last one first: the old base pointer, and for a
frame with others around it the base pointers of those and its own. -/
structure Displays (m : Machine) (depth : Nat) (words : List Word) : Prop where
  length : words.length = depth + 1
  old : words[depth]? = some m.registers.bp
  own : 0 < depth → words[0]? = some (m.registers.sp - 2)
  others : (∀ address, m.registers.framed.CoversBelow (depth - 1) address →
      ¬ m.registers.CoversBelow (1 + depth) address) →
    ∀ i, 0 < i → i < depth → words[depth - i]?
      = m.memory.word? ⟨m.registers.ss, m.registers.bp - BitVec.ofNat 16 (2 * i)⟩

theorem displays_zero (m : Machine) : Displays m 0 [m.registers.bp] where
  length := rfl
  old := rfl
  own hpos := absurd hpos (Nat.lt_irrefl 0)
  others _ _ _ hi := absurd hi (Nat.not_lt_zero _)

theorem displays_succ {depth : Nat} {words : List Word} (hlength : words.length = depth)
    (hcopied : (∀ address, m.registers.framed.CoversBelow depth address →
        ¬ m.registers.CoversBelow (1 + depth) address) →
      ∀ i, i < depth → m.memory.word?
        ⟨m.registers.ss, m.registers.bp - BitVec.ofNat 16 (2 * (i + 1))⟩ = words[i]?) :
    Displays m (depth + 1)
      ((m.registers.sp - 2) :: (words.reverse ++ [m.registers.bp])) where
  length := by simp [hlength]
  old := by simp [hlength]
  own _ := rfl
  others hapart i hpos hi := by
    obtain ⟨i, rfl⟩ := Nat.exists_eq_succ_of_ne_zero (Nat.ne_of_gt hpos)
    rw [hcopied (fun address haddress hbelow =>
      hapart address haddress (hbelow.mono (by omega))) i (by omega)]
    have hindex : depth + 1 - (i + 1) = depth - 1 - i + 1 := by omega
    have hbefore : depth - 1 - i < words.reverse.length := by
      rw [List.length_reverse]
      omega
    rw [hindex, List.getElem?_cons_succ, List.getElem?_append_left hbefore,
      List.getElem?_reverse (by omega)]
    congr 1
    omega

variable {size : Word} {level : Byte}

/-- What entering a frame comes to once the instruction has been fetched. -/
theorem exists_run_enter (hface : m.Faces [Word.low size, Word.high size, level])
    (hbuilt : m.memory.Built) (hunaliased : m.memory.Unaliased)
    (hopen : m.memory.SegmentOpen m.registers.ss) :
    ∃ (now : Machine) (words : List Word) (bp : Word),
      Stacked ((m.past 3).based bp) (1 + level.toNat % 32) words now
        ∧ Displays m (level.toNat % 32) words
        ∧ performEnter.run m = (.ok (), { now with registers := { now.registers with
          bp := m.registers.sp - 2, sp := now.registers.sp - size } }) := by
  have hsize : fetchWord.run m = (.ok size, m.past 2) := by
    rw [run_fetchWord hface, Word.ofBytes_low_high]
  have hlast : (m.past 2).Faces [level] := hface.drop (Nat.le_succ 2)
  have hlevel : fetchByte.run (m.past 2) = (.ok level, m.past 3) :=
    (run_fetchByte hlast).trans (congrArg (Prod.mk _) (past_add 2 1 m).symm)
  obtain ⟨kept, hpush, hkept⟩ : ∃ kept,
      (push (m.past 3).registers.bp).run (m.past 3) = (.ok (), kept)
        ∧ Stacked (m.past 3) 1 [m.registers.bp] kept :=
    (Stacked.start (m.past 3)).exists_push hbuilt hunaliased hopen (by decide) m.registers.bp
  have hframe : kept.registers.sp = m.registers.sp - 2 := congrArg Registers.sp hkept.registers
  unfold performEnter
  rw [run_bind_of_ok _ hsize, run_bind_of_ok _ hlevel, run_bind_of_ok _ run_registers,
    run_bind_of_ok _ hpush, run_bind_of_ok _ run_registers, hframe]
  dsimp only
  rcases hdepth : level.toNat % 32 with _ | depth
  · exact ⟨kept, [m.registers.bp], m.registers.bp, hkept, displays_zero m, rfl⟩
  · obtain ⟨copied, words, hcopy, hlength, hcopied, hsame⟩ :=
      hkept.exists_run_copyFramePointers depth hbuilt hunaliased hopen (by
        show 1 + depth ≤ 0x8000
        omega)
    have hcount : (words.reverse ++ [m.registers.bp]).length = depth + 1 := by
      rw [List.length_append, List.length_reverse, hlength, List.length_singleton]
    obtain ⟨now, hown, hnow⟩ := hcopied.exists_push hbuilt hunaliased hopen (by
      rw [hcount, StackOperation.capacity]
      omega) (m.registers.sp - 2)
    refine ⟨now, (m.registers.sp - 2) :: (words.reverse ++ [m.registers.bp]), _, hnow.mono ?_,
      displays_succ hlength fun hapart => hsame fun address haddress hbelow => ?_, ?_⟩
    · rw [hcount, List.length_singleton]
      omega
    · refine hapart address haddress (hbelow.mono ?_)
      rw [List.length_singleton]
      omega
    · rw [if_pos (Nat.succ_pos depth), Nat.succ_sub_one, run_bind_of_ok _ hcopy,
        run_bind_of_ok _ hown, run_modifyRegisters]

/-- The step that leaves a frame takes the stack pointer from the base pointer, and that from the
stack. -/
theorem step_leave {head : Head} {frame : Word} (hface : m.Faces head.bytes)
    (hopcode : head.opcode = 0xc9) (hopen : m.memory.SegmentOpen m.registers.ss)
    (hword : m.memory.word? ⟨m.registers.ss, m.registers.bp⟩ = some frame) :
    m.step = (.continued, ⟨{ m.registers with
      ip := head.next m, sp := m.registers.bp + 2, bp := frame }, m.memory⟩) := by
  have hinstruction : Opcode.ofByte head.opcode = .instruction .leave := by
    rw [hopcode]
    rfl
  let framed : Machine := { head.behindOpcode m with
    registers := (head.behindOpcode m).registers.framed }
  have hpop : pop.run framed = (.ok frame, { framed with
      registers := { framed.registers with sp := framed.registers.sp + 2 } }) := by
    apply run_pop_of_word? (m := framed) hopen
    rw [Registers.wordPlace_zero]
    exact hword
  have hnext : (head.behindOpcode m).registers.ip = head.next m := by
    have hnumber : numberLength 0xc9 0 = 0 := by decide
    have hip := Head.ip_past_behindOpcode m (by rw [hopcode]; rfl)
    rwa [hopcode, hnumber, past_zero] at hip
  rw [← hnext]
  exact Head.step_of_run hface hinstruction (by decide) fun _ =>
    run_bind_of_ok (p := pop) _ hpop

/-- A step has entered a frame: the words that this begins with lie one below the other from the new
base pointer on, and nothing else has changed. -/
structure Enters (m : Machine) (next : Word) (depth : Nat) (size : Word) (words : List Word) :
    Prop where
  continued : m.step.1 = .continued
  registers : m.step.2.registers = { m.registers with
    ip := next
    bp := m.registers.sp - 2
    sp := m.registers.sp - 2 - BitVec.ofNat 16 (2 * depth) - size }
  words : ∀ i, i ≤ depth → m.step.2.memory.word?
    ⟨m.registers.ss, m.registers.sp - 2 - BitVec.ofNat 16 (2 * i)⟩ = words[depth - i]?
  outside : m.memory.SameOutside (m.memory.Behind (m.registers.CoversBelow (1 + depth)))
    m.step.2.memory

theorem exists_enters {head : Head} (hbuilt : m.memory.Built) (hunaliased : m.memory.Unaliased)
    (hopen : m.memory.SegmentOpen m.registers.ss) (hopcode : head.opcode = 0xc8)
    (hface : m.Faces (head.bytes ++ [Word.low size, Word.high size, level])) :
    ∃ words, Displays m (level.toNat % 32) words
      ∧ Enters m (head.next m) (level.toNat % 32) size words := by
  have hnamesNone : namesOperands head.opcode = false := by
    rw [hopcode]
    rfl
  have hinstruction : Opcode.ofByte head.opcode = .instruction .enter := by
    rw [hopcode]
    rfl
  obtain ⟨hhere, hnumbers⟩ := faces_append_iff.mp hface
  rw [(head.length_of_not_namesOperands hnamesNone).1] at hnumbers
  obtain ⟨now, words, bp, hstacked, hdisplays, hrun⟩ :=
    exists_run_enter (m := head.behindOpcode m) hnumbers hbuilt hunaliased hopen
  have hstep := Head.step_of_run hhere hinstruction (by decide) fun _ => hrun
  have hmemory : m.step.2.memory = now.memory := by rw [hstep]
  -- What has been fetched makes no difference to the words.
  have hwords : Displays m (level.toNat % 32) words :=
    ⟨hdisplays.length, hdisplays.old, hdisplays.own, hdisplays.others⟩
  refine ⟨words, hwords, congrArg Prod.fst hstep, ?_, fun i hi => ?_, ?_⟩
  · have hlength : numberLength 0xc8 0 = 3 := by decide
    have hip := Head.ip_past_behindOpcode m hnamesNone
    rw [hopcode, hlength] at hip
    have hsp : m.registers.sp - BitVec.ofNat 16 (2 * (level.toNat % 32 + 1))
        = m.registers.sp - 2 - BitVec.ofNat 16 (2 * (level.toNat % 32)) := by
      bv_omega
    rw [hstep, ← hip, ← hsp, hstacked.registers, hdisplays.length]
    simp only [Registers.lowered, based, Head.behindOpcode, past, skip]
  · rw [hmemory]
    exact hstacked.word?_frame hdisplays.length hi
  · rw [hmemory]
    exact hstacked.outside.mono fun address => .of_stackPointer_eq rfl

namespace Enters

variable {next : Word} {depth : Nat} {words : List Word}

/-- The new base pointer is at the word that keeps the old one. -/
theorem word?_frame (h : Enters m next depth size words) (hdisplays : Displays m depth words) :
    m.step.2.memory.word? ⟨m.registers.ss, m.registers.sp - 2⟩ = some m.registers.bp := by
  have hfirst := h.words 0 (Nat.zero_le _)
  rwa [Nat.mul_zero, BitVec.sub_zero, Nat.sub_zero, hdisplays.old] at hfirst

/-- Where segment, base pointer and the word there are as they were when the frame had been entered,
it can be left. -/
theorem step_leave {n : Nat} {last : Head} (h : Enters m next depth size words)
    (hdisplays : Displays m depth words) (hopen : m.memory.SegmentOpen m.registers.ss)
    (hopcode : last.opcode = 0xc9) (hface : (m.step.2.after n).Faces last.bytes)
    (hss : (m.step.2.after n).registers.ss = m.step.2.registers.ss)
    (hbp : (m.step.2.after n).registers.bp = m.step.2.registers.bp)
    (hkept : (m.step.2.after n).memory.word? ⟨m.registers.ss, m.registers.sp - 2⟩
      = m.step.2.memory.word? ⟨m.registers.ss, m.registers.sp - 2⟩) :
    (m.step.2.after n).step = (.continued, ⟨{ (m.step.2.after n).registers with
        ip := last.next (m.step.2.after n), sp := m.registers.sp, bp := m.registers.bp },
      (m.step.2.after n).memory⟩) := by
  rw [h.registers] at hss hbp
  have hthere : (m.step.2.after n).memory.word? ⟨(m.step.2.after n).registers.ss,
      (m.step.2.after n).registers.bp⟩ = some m.registers.bp := by
    rw [hss, hbp]
    exact hkept.trans (h.word?_frame hdisplays)
  have hopen' : (m.step.2.after n).memory.SegmentOpen (m.step.2.after n).registers.ss := by
    rw [hss]
    exact hopen.of_sameShape (h.outside.shape.trans (sameShape_after n m.step.2))
  have hsp : m.registers.sp - 2 + 2 = m.registers.sp := BitVec.sub_add_cancel _ _
  rw [Machine.step_leave hface hopcode hopen' hthere, hbp, hsp]

end Enters

/-- An instruction that enters a frame leaves the base pointer at the word that keeps the old one,
and the stack pointer below the display and the room for data, all modulo the size of the segment.
The display holds the words of the old one, if that has not been pushed to, and then the base
pointer of the frame itself. The instruction that leaves a frame undoes this, whatever the steps in
between have done, as long as segment and base pointer and the word there are as they were. -/
theorem step_enter_leave {head : Head} (hbuilt : m.memory.Built) (hunaliased : m.memory.Unaliased)
    (hopen : m.memory.SegmentOpen m.registers.ss) (hopcode : head.opcode = 0xc8)
    (hface : m.Faces (head.bytes ++ [Word.low size, Word.high size, level])) :
    let r := m.registers
    let entered := m.step.2
    let frame := r.sp - 2
    let depth := level.toNat % 32
    m.step.1 = .continued
      ∧ entered.registers = { r with
          ip := head.next m
          bp := frame
          sp := frame - BitVec.ofNat 16 (2 * depth) - size }
      ∧ entered.memory.word? ⟨r.ss, frame⟩ = some r.bp
      ∧ (0 < depth →
        entered.memory.word? ⟨r.ss, frame - BitVec.ofNat 16 (2 * depth)⟩ = some frame)
      ∧ ((∀ address, r.framed.CoversBelow (depth - 1) address →
          ¬ r.CoversBelow (1 + depth) address) →
        ∀ i, 0 < i → i < depth → entered.memory.word? ⟨r.ss, frame - BitVec.ofNat 16 (2 * i)⟩
          = m.memory.word? ⟨r.ss, r.bp - BitVec.ofNat 16 (2 * i)⟩)
      ∧ m.memory.SameOutside (m.memory.Behind (r.CoversBelow (1 + depth))) entered.memory
      ∧ ∀ (n : Nat) (last : Head), let back := entered.after n
        last.opcode = 0xc9 → back.Faces last.bytes →
        back.registers.ss = entered.registers.ss → back.registers.bp = entered.registers.bp →
        back.memory.word? ⟨r.ss, frame⟩ = entered.memory.word? ⟨r.ss, frame⟩ →
        back.step = (.continued, ⟨{ back.registers with
          ip := last.next back, sp := r.sp, bp := r.bp }, back.memory⟩) := by
  obtain ⟨words, hdisplays, henters⟩ := exists_enters hbuilt hunaliased hopen hopcode hface
  refine ⟨henters.continued, henters.registers, henters.word?_frame hdisplays, fun hpos => ?_,
    fun hapart i hpos hi => ?_, henters.outside, fun n last => henters.step_leave hdisplays hopen⟩
  · rw [henters.words _ (Nat.le_refl _), Nat.sub_self]
    exact hdisplays.own hpos
  · rw [henters.words i (Nat.le_of_lt hi)]
    exact hdisplays.others hapart i hpos hi

/-- A machine that is about to enter a frame at depth three, with four bytes of data, and to leave
it at once. The old display lies at the foot of the segment, and the new one wraps around its end.
-/
def entering : Machine :=
  Sandbox.running [0xc8, 0x04, 0x00, 0x03, 0xc9]
    { Registers.initial with ss := 0x1000, sp := 3, bp := 0x2000 }

theorem step_enter_leave_entering :
    entering.step.2.registers.sp = 0xfff7
      ∧ entering.step.2.memory.word? ⟨0x1000, 0xfffb⟩ = some 1
      ∧ (∀ i, 0 < i → i < 3 →
        entering.step.2.memory.word? ⟨0x1000, 1 - BitVec.ofNat 16 (2 * i)⟩
          = entering.memory.word? ⟨0x1000, 0x2000 - BitVec.ofNat 16 (2 * i)⟩)
      ∧ entering.step.2.step.2.registers.sp = 3
      ∧ entering.step.2.step.2.registers.bp = 0x2000 := by
  let head : Head := ⟨[], 0xc8, none, by decide, by decide, rfl, rfl⟩
  let last : Head := ⟨[], 0xc9, none, by decide, by decide, rfl, rfl⟩
  have hlaidOut := Sandbox.laidOut_initialMemory (Image.encode [0xc8, 0x04, 0x00, 0x03, 0xc9])
  have hface : entering.Faces ([0xc8, 0x04, 0x00, 0x03] ++ [0xc9]) :=
    Sandbox.faces_running _ (by decide)
  obtain ⟨-, hregisters, -, hown, hdisplay, houtside, hleave⟩ :=
    @step_enter_leave entering 4 3 head (Sandbox.built_initialMemory _) hlaidOut.unaliased
      (hlaidOut.segmentOpen (by decide)) rfl (faces_append_iff.mp hface).1
  have hdepth : (3 : Byte).toNat % 32 = 3 := by decide
  have hframe : entering.registers.sp - 2 = 1 := by decide
  have hlowest : (1 : Word) - BitVec.ofNat 16 (2 * 3) = 0xfffb := by decide
  rw [hdepth, hframe] at hown hdisplay
  rw [hlowest] at hown
  -- The code lies in the first segment of the sandbox, and the stack in the second.
  have hnext : (entering.past 4).Faces [0xc9] := (faces_append_iff.mp hface).2
  have hcode : ((entering.past 4).registers.codePointer.advance (BitVec.ofNat 16 0)).linear
      < 0x10000 := by decide
  have hstack : entering.registers.ss.toNat * 16 = 0x10000 := by decide
  have hback : entering.step.2.Faces last.bytes := by
    intro i hi
    obtain rfl : i = 0 := Nat.lt_one_iff.mp hi
    have hplace : entering.step.2.registers.codePointer
        = (entering.past 4).registers.codePointer := by
      have hlength : head.length = 4 := by decide
      rw [hregisters, Head.next, hlength]
      rfl
    rw [hplace]
    refine (houtside.read_eq hlaidOut.unaliased .execute fun hcovers => ?_).trans
      (hnext 0 Nat.one_pos)
    have hle := hcovers.le
    omega
  have hapart (address : Nat) (hold : entering.registers.framed.CoversBelow 2 address) :
      ¬ entering.registers.CoversBelow 4 address := by
    obtain ⟨i, hi, hdisplayed⟩ := hold.exists_offset
    intro hnew
    obtain ⟨k, hk, hpushed⟩ := hnew.exists_offset
    have hoffset := FarPointer.linear_injective (hdisplayed.symm.trans hpushed)
    have hbp : entering.registers.framed.sp = 0x2000 := rfl
    have hsp : entering.registers.sp = 3 := rfl
    rw [hbp, hsp] at hoffset
    bv_omega
  -- No step comes in between.
  have hstep := hleave 0 last rfl
  rw [after_zero] at hstep
  have hend := congrArg (fun ended => ended.2.registers) (hstep hback rfl rfl rfl)
  exact ⟨(congrArg Registers.sp hregisters).trans (by decide), hown (by decide), hdisplay hapart,
    congrArg Registers.sp hend, congrArg Registers.bp hend⟩

end Machine

end CmStream
