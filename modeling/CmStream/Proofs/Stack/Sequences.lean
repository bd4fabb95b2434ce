import CmStream.Proofs.Machine.Lengths
import CmStream.Proofs.Routine.Placement
import CmStream.Proofs.Stack.Pushing
import CmStream.Proofs.Strings.Replication

/-!
# Sequences of pushes and pops

The stack of the machine does what a list of words does. `Machine.Stacked` relates the two: a push
and a pop keep it, and so does every sequence of them. How far the stack pointer wraps around does
not matter, up to the number of words at which the stack fills its whole segment.
-/

namespace CmStream

namespace StackOperation

/-! ## The list of words -/

variable {operations before between : List StackOperation} {stack more : List Word} {depth : Nat}

/-- Words further down make no difference to operations that do not get there. -/
theorem popped_append_left (h : Fits stack.length operations) :
    popped operations (stack ++ more) = popped operations stack
      ∧ left operations (stack ++ more) = left operations stack ++ more := by
  induction operations generalizing stack with
  | nil => exact ⟨rfl, rfl⟩
  | cons operation operations ih =>
    cases operation with
    | push value =>
      have hrest : Fits (value :: stack).length operations := h.2
      exact ih hrest
    | pop =>
      cases stack with
      | nil => exact h.elim
      | cons value stack =>
        have hrest : Fits stack.length operations := h
        simp [popped, left, ih hrest]

theorem popped_append (before operations : List StackOperation) (stack : List Word) :
    popped (before ++ operations) stack
      = popped before stack ++ popped operations (left before stack) := by
  induction before generalizing stack with
  | nil => rfl
  | cons operation before ih =>
    cases operation with
    | push value => exact ih _
    | pop => simp only [List.cons_append, popped, left, ih, List.append_assoc]

/-- A pop matches a push if the operations in between pop all that they push and no more. It is the
word of the push that matches which is popped. -/
theorem popped_matching (value : Word) (hfits : Fits 0 between) (hleft : left between [] = []) :
    popped (before ++ push value :: (between ++ pop :: operations)) stack
      = popped before stack ++ popped between [] ++ value
        :: popped operations (left before stack) := by
  have hempty : Fits ([] : List Word).length between := hfits
  obtain ⟨hpopped, hkept⟩ : popped between (value :: left before stack) = popped between []
      ∧ left between (value :: left before stack)
        = left between [] ++ value :: left before stack :=
    popped_append_left hempty
  rw [hleft, List.nil_append] at hkept
  rw [popped_append, popped, popped_append, hpopped, hkept, List.append_assoc]
  rfl

theorem le_highest (depth : Nat) (operations : List StackOperation) :
    depth ≤ highest depth operations := by
  induction operations generalizing depth with
  | nil => exact Nat.le_refl depth
  | cons operation operations ih =>
    cases operation with
    | push value => exact Nat.le_of_succ_le (ih (depth + 1))
    | pop => exact Nat.le_max_left _ _

end StackOperation

namespace Machine

open Encoding Instruction Microprogram PagedMemory

/-- A machine has come from another one by pushing and popping: the given words are on its stack,
the uppermost first, there have never been more than `most`, and nothing else has changed. -/
structure Stacked (m : Machine) (most : Nat) (stack : List Word) (now : Machine) : Prop where
  registers : now.registers = m.registers.lowered stack.length
  words : ∀ i, i < stack.length → now.memory.word? (now.registers.wordPlace i) = stack[i]?
  outside : m.memory.SameOutside (m.memory.Behind (m.registers.CoversBelow most)) now.memory

variable {m now after : Machine} {most more : Nat} {stack : List Word} {value : Word}

theorem run_perform_push (h : (push value).run now = (.ok (), after)) :
    (StackOperation.push value).perform.run now = (.ok [], after) := by
  unfold StackOperation.perform
  rw [run_bind_of_ok _ h]
  rfl

theorem run_perform_pop (h : pop.run now = (.ok value, after)) :
    StackOperation.pop.perform.run now = (.ok [value], after) := by
  unfold StackOperation.perform
  rw [run_bind_of_ok _ h]
  rfl

theorem run_performAll_cons {operation : StackOperation} {operations : List StackOperation}
    {popped others : List Word} {last : Machine}
    (hfirst : operation.perform.run now = (.ok popped, after))
    (hothers : (StackOperation.performAll operations).run after = (.ok others, last)) :
    (StackOperation.performAll (operation :: operations)).run now
      = (.ok (popped ++ others), last) := by
  unfold StackOperation.performAll
  rw [run_bind_of_ok _ hfirst, run_bind_of_ok _ hothers]
  rfl

namespace Stacked

theorem start (m : Machine) : Stacked m 0 [] m where
  registers := m.registers.lowered_zero.symm
  words _ hi := absurd hi (Nat.not_lt_zero _)
  outside := .refl _ _

theorem mono (h : Stacked m most stack now) (hle : most ≤ more) : Stacked m more stack now where
  registers := h.registers
  words := h.words
  outside := h.outside.mono fun _ => Registers.CoversBelow.mono hle

/-- Registers other than those of the stack may change on both sides alike. -/
theorem change (h : Stacked m most stack now) (change : Registers → Registers)
    (hlowered : ∀ r words, change (r.lowered words) = (change r).lowered words)
    (hstack : ∀ r, (change r).stackPointer = r.stackPointer) :
    Stacked { m with registers := change m.registers } most stack
      { now with registers := change now.registers } where
  registers := by
    rw [h.registers]
    exact hlowered _ _
  words i hi := by
    rw [Registers.wordPlace, hstack]
    exact h.words i hi
  outside := h.outside.mono fun address haddress =>
    Registers.CoversBelow.of_stackPointer_eq (hstack _) haddress

theorem past (h : Stacked m most stack now) (count : Nat) :
    Stacked (m.past count) most stack (now.past count) :=
  h.change (fun r => { r with ip := r.ip + BitVec.ofNat 16 count }) (fun _ _ => rfl) fun _ => rfl

theorem segmentOpen (h : Stacked m most stack now)
    (hopen : m.memory.SegmentOpen m.registers.ss) :
    now.memory.SegmentOpen now.registers.ss := by
  rw [h.registers]
  exact hopen.of_sameShape h.outside.shape

/-- One more word. What the push writes to, no word on the stack reaches. -/
theorem pushed (h : Stacked m most stack now) (hunaliased : m.memory.Unaliased)
    (hroom : stack.length < StackOperation.capacity) (hpushed : Pushed value now after) :
    Stacked m (max most (stack.length + 1)) (value :: stack) after := by
  have hregisters : after.registers = m.registers.lowered (stack.length + 1) := by
    rw [hpushed.registers, h.registers, Registers.lowered_add]
  refine ⟨hregisters, fun i hi => ?_, ?_⟩
  · cases i with
    | zero => exact hpushed.word
    | succ i =>
      rw [List.length_cons, Nat.add_lt_add_iff_right] at hi
      have hplace : after.registers.wordPlace (i + 1) = now.registers.wordPlace i := by
        rw [hpushed.registers, Registers.wordPlace_lowered_succ]
      rw [hplace, List.getElem?_cons_succ, ← h.words i hi]
      -- With fewer words than there is room for, the new one has not come round to an old one.
      apply hpushed.stores.outside.word?_eq (hunaliased.of_sameShape h.outside.shape)
      intro address haddress
      rw [hpushed.registers]
      exact Registers.not_covers_of_wordPlace (by omega) haddress
  · apply h.outside.append hpushed.stores.outside
    rintro address (hbefore | hnew)
    · exact hbefore.mono (Nat.le_max_left _ _)
    · rw [hregisters] at hnew
      exact (Registers.coversBelow_of_covers hnew).mono (Nat.le_max_right _ _)

theorem exists_push (h : Stacked m most stack now) (hbuilt : m.memory.Built)
    (hunaliased : m.memory.Unaliased) (hopen : m.memory.SegmentOpen m.registers.ss)
    (hroom : stack.length < StackOperation.capacity) (value : Word) :
    ∃ after, (push value).run now = (.ok (), after)
      ∧ Stacked m (max most (stack.length + 1)) (value :: stack) after := by
  obtain ⟨after, hrun⟩ := exists_run_push value (h.segmentOpen hopen)
  have htiled := hbuilt.tiled.of_sameShape h.outside.shape
  exact ⟨after, hrun, h.pushed hunaliased hroom (pushed_of_run htiled hrun)⟩

/-- One word less. -/
theorem exists_pop (h : Stacked m most (value :: stack) now)
    (hopen : m.memory.SegmentOpen m.registers.ss) :
    ∃ after, pop.run now = (.ok value, after) ∧ Stacked m most stack after := by
  refine ⟨_, run_pop_of_word? (h.segmentOpen hopen) (h.words 0 (Nat.succ_pos _)), ?_, ?_,
    h.outside⟩
  · rw [h.registers]
    exact Registers.raised_lowered _ _
  · intro i hi
    have hword := h.words (i + 1) (Nat.succ_lt_succ hi)
    rw [List.getElem?_cons_succ] at hword
    rw [← hword, h.registers]
    refine congrArg now.memory.word? ?_
    show Registers.wordPlace { Registers.lowered _ _ with sp := _ } i = _
    rw [List.length_cons, Registers.raised_lowered, ← Registers.wordPlace_lowered_succ,
      Registers.lowered_add]

/-! ## Many words -/

section Many

variable (hbuilt : m.memory.Built) (hunaliased : m.memory.Unaliased)
  (hopen : m.memory.SegmentOpen m.registers.ss)

include hbuilt hunaliased hopen

/-- Every sequence of operations for which there is room. -/
theorem exists_run_performAll {operations : List StackOperation} (h : Stacked m most stack now)
    (hfits : StackOperation.Fits stack.length operations) :
    ∃ last, (StackOperation.performAll operations).run now
        = (.ok (StackOperation.popped operations stack), last)
      ∧ Stacked m (max most (StackOperation.highest stack.length operations))
        (StackOperation.left operations stack) last := by
  -- The induction goes along the operations, with the words that each one finds on the stack.
  induction operations generalizing most stack now with
  | nil => exact ⟨now, rfl, h.mono (Nat.le_max_left _ _)⟩
  | cons operation operations ih =>
    cases operation with
    | push value =>
      obtain ⟨hroom, hrest⟩ := hfits
      obtain ⟨between, hpush, hbetween⟩ := h.exists_push hbuilt hunaliased hopen hroom value
      obtain ⟨last, hrun, hlast⟩ := ih hbetween hrest
      have hle := StackOperation.le_highest (stack.length + 1) operations
      refine ⟨last, run_performAll_cons (run_perform_push hpush) hrun, hlast.mono ?_⟩
      simp only [List.length_cons, StackOperation.highest]
      omega
    | pop =>
      cases stack with
      | nil => exact hfits.elim
      | cons value stack =>
        obtain ⟨between, hpop, hbetween⟩ := h.exists_pop hopen
        have hrest : StackOperation.Fits stack.length operations := hfits
        obtain ⟨last, hrun, hlast⟩ := ih hbetween hrest
        refine ⟨last, run_performAll_cons (run_perform_pop hpop) hrun, hlast.mono ?_⟩
        simp only [List.length_cons, StackOperation.highest, Nat.add_sub_cancel]
        omega

/-- The values of some registers, pushed one after the other. -/
theorem exists_run_pushAll (names : List WordRegister) (r : Registers)
    (h : Stacked m most stack now)
    (hroom : stack.length + names.length ≤ StackOperation.capacity) :
    ∃ last, (names.forM fun name => push (r.word name)).run now = (.ok (), last)
      ∧ Stacked m (max most (stack.length + names.length))
        (names.reverse.map r.word ++ stack) last := by
  induction names generalizing most stack now with
  | nil => exact ⟨now, rfl, h.mono (Nat.le_max_left _ _)⟩
  | cons name names ih =>
    rw [List.length_cons] at hroom
    obtain ⟨between, hpush, hbetween⟩ :=
      h.exists_push hbuilt hunaliased hopen (by omega) (r.word name)
    obtain ⟨last, hrun, hlast⟩ := ih hbetween (by rw [List.length_cons]; omega)
    refine ⟨last, ?_, ?_⟩
    · exact (run_bind_of_ok (fun _ => names.forM fun name => push (r.word name)) hpush).trans hrun
    · rw [List.reverse_cons, List.map_append, List.append_assoc]
      apply hlast.mono
      simp only [List.length_cons]
      omega

end Many

/-- The registers of the beginning, popped one after the other; the stack pointer is passed over. A
register that gets back the value that it has stays what it is. -/
theorem exists_run_popAll (names : List WordRegister)
    (h : Stacked m most (names.map m.registers.word ++ stack) now)
    (hopen : m.memory.SegmentOpen m.registers.ss) :
    ∃ last, (names.forM fun name : WordRegister => do
          let value ← pop
          if name ≠ WordRegister.sp then
            modifyRegisters (·.setWord name value)).run now = (.ok (), last)
      ∧ Stacked m most stack last := by
  induction names generalizing now with
  | nil => exact ⟨now, rfl, h⟩
  | cons name names ih =>
    obtain ⟨between, hpop, hbetween⟩ := h.exists_pop hopen
    obtain ⟨last, hrun, hlast⟩ := ih hbetween
    refine ⟨last, ?_, hlast⟩
    have hset : (if name ≠ WordRegister.sp then
          modifyRegisters (·.setWord name (m.registers.word name))
        else pure ()).run between = (.ok (), between) := by
      split
      case isTrue hname =>
        have hsame : between.registers.setWord name (m.registers.word name)
            = between.registers := by
          rw [hbetween.registers]
          exact Registers.setWord_lowered _ _ hname
        rw [run_modifyRegisters, hsame]
      case isFalse => rfl
    have hfirst : (do
        let value ← pop
        if name ≠ WordRegister.sp then modifyRegisters (·.setWord name value)).run now
        = (.ok (), between) := by
      rw [run_bind_of_ok _ hpop, hset]
    exact (run_bind_of_ok _ hfirst).trans hrun

end Stacked

/-! ## All registers at once -/

section PushAllPopAll

variable {head : Head}

/-- All eight registers go on the stack, the stack pointer with the value that it has before. -/
theorem step_pushAll (hface : m.Faces head.bytes) (hopcode : head.opcode = 0x60)
    (hbuilt : m.memory.Built) (hunaliased : m.memory.Unaliased)
    (hopen : m.memory.SegmentOpen m.registers.ss) :
    m.step.1 = .continued ∧ Stacked (m.past head.bytes.length) 8
      (WordRegister.all.reverse.map (m.past head.bytes.length).registers.word) m.step.2 := by
  have hbytes := (head.length_of_not_namesOperands (by rw [hopcode]; rfl)).1
  let start := head.behindOpcode m
  obtain ⟨last, hrun, hlast⟩ := (Stacked.start start).exists_run_pushAll (m := start)
    hbuilt hunaliased hopen WordRegister.all start.registers (by decide)
  have hinstruction : Opcode.ofByte head.opcode = .instruction .pushAll := by
    rw [hopcode]
    rfl
  have hstep : m.step = (.continued, last) :=
    Head.step_of_run hface hinstruction (by decide) fun _ => hrun
  rw [List.append_nil] at hlast
  rw [hstep, hbytes]
  exact ⟨rfl, hlast⟩

/-- All registers but the stack pointer get back what is on the stack. -/
theorem step_popAll (hface : now.Faces head.bytes) (hopcode : head.opcode = 0x61)
    (h : Stacked m most (WordRegister.all.reverse.map m.registers.word) now)
    (hopen : m.memory.SegmentOpen m.registers.ss) :
    now.step.1 = .continued ∧ Stacked (m.past head.bytes.length) most [] now.step.2 := by
  have hbytes := (head.length_of_not_namesOperands (by rw [hopcode]; rfl)).1
  have hpast := h.past head.bytes.length
  rw [← List.append_nil (List.map _ _)] at hpast
  obtain ⟨last, hrun, hlast⟩ := hpast.exists_run_popAll _ hopen
  rw [hbytes] at hrun
  have hinstruction : Opcode.ofByte head.opcode = .instruction .popAll := by
    rw [hopcode]
    rfl
  have hstep : now.step = (.continued, last) :=
    Head.step_of_run hface hinstruction (by decide) fun _ => hrun
  rw [hstep]
  exact ⟨rfl, hlast⟩

end PushAllPopAll

/-- The stack is a stack, wherever in its segment it begins. With room for every push and a word for
every pop, a sequence of pushes and pops succeeds and pops what a list of words would give: each pop
the word of the push that matches it. The stack pointer is lower by twice the number of words that
are left, and no byte has changed but those that have been pushed to. So an instruction that pops
all registers takes back one that has pushed them all, if that has not overwritten it. -/
theorem stack_does_as_list (hbuilt : m.memory.Built) (hunaliased : m.memory.Unaliased)
    (hopen : m.memory.SegmentOpen m.registers.ss) :
    (∀ operations, StackOperation.Fits 0 operations → ∃ last,
      (StackOperation.performAll operations).run m
          = (.ok (StackOperation.popped operations []), last)
        ∧ Stacked m (StackOperation.highest 0 operations) (StackOperation.left operations []) last)
    ∧ (∀ before between operations value,
      StackOperation.Fits 0 (before ++ .push value :: (between ++ .pop :: operations)) →
      StackOperation.Fits 0 between → StackOperation.left between [] = [] → ∃ last,
      (StackOperation.performAll (before ++ .push value :: (between ++ .pop :: operations))).run m
          = (.ok (StackOperation.popped before [] ++ StackOperation.popped between []
            ++ value :: StackOperation.popped operations (StackOperation.left before [])), last))
    ∧ ∀ first second : Head, first.opcode = 0x60 → second.opcode = 0x61 →
      m.Faces (first.bytes ++ second.bytes) →
      (∀ i, i < second.bytes.length → ¬ m.registers.CoversBelow 8
        (m.registers.codePointer.advance (BitVec.ofNat 16 (first.bytes.length + i))).linear) →
      m.step.1 = .continued ∧ m.step.2.step.1 = .continued
        ∧ m.step.2.step.2.registers = { m.registers with
          ip := m.registers.ip
            + BitVec.ofNat 16 (first.bytes.length + second.bytes.length) }
        ∧ m.memory.SameOutside (m.memory.Behind (m.registers.CoversBelow 8))
          m.step.2.step.2.memory := by
  have hsequences : ∀ operations, StackOperation.Fits 0 operations → ∃ last,
      (StackOperation.performAll operations).run m
          = (.ok (StackOperation.popped operations []), last)
        ∧ Stacked m (StackOperation.highest 0 operations) (StackOperation.left operations [])
          last := by
    intro operations hfits
    obtain ⟨last, hrun, hlast⟩ :=
      (Stacked.start m).exists_run_performAll hbuilt hunaliased hopen hfits
    rw [List.length_nil, Nat.zero_max] at hlast
    exact ⟨last, hrun, hlast⟩
  refine ⟨hsequences, ?_, ?_⟩
  · intro before between operations value hfits hbetween hleft
    obtain ⟨last, hrun, -⟩ := hsequences _ hfits
    rw [StackOperation.popped_matching value hbetween hleft] at hrun
    exact ⟨last, hrun⟩
  · intro first second hfirst hsecond hface hkept
    obtain ⟨hhere, hnext⟩ := faces_append_iff.mp hface
    obtain ⟨hcontinued, hpushed⟩ := step_pushAll hhere hfirst hbuilt hunaliased hopen
    -- The second instruction is where it was.
    have hafter : m.step.2.Faces second.bytes := by
      intro i hi
      rw [hpushed.registers]
      show m.step.2.memory.read _ ((m.past _).registers.codePointer.advance _).linear = _
      rw [← hnext i hi]
      apply hpushed.outside.read_eq hunaliased
      rw [codePointer_past, FarPointer.advance_advance, ← BitVec.ofNat_add]
      exact hkept i hi
    obtain ⟨hcontinued', hpopped⟩ := step_popAll hafter hsecond hpushed hopen
    refine ⟨hcontinued, hcontinued', ?_, hpopped.outside⟩
    rw [hpopped.registers, List.length_nil, Registers.lowered_zero, ← past_add]
    rfl

end Machine

/-! ## A routine in the sandbox -/

namespace Sandbox

/-- A machine in the sandbox at the beginning of a routine. -/
def running (routine : List Byte) (r : Registers) : Machine :=
  ⟨{ r with cs := segmentAt stackReserve, ip := BitVec.ofNat 16 Image.headerLength },
    initialMemory (Image.encode routine)⟩

theorem faces_running {routine : List Byte} (r : Registers)
    (hlength : (Image.encode routine).length ≤ codeSpace) :
    (running routine r).Faces routine :=
  At.faces (k := 0) ⟨loaded_initialMemory hlength, rfl⟩

theorem built_initialMemory (code : List Byte) : (initialMemory code).Built := by
  have hcontents : (contents code).Built := .poke _ _ _ (.poke _ _ _ (.allocate _ (.allocate _
    (.allocate _ .empty))))
  exact ((hcontents.map (map_code code)).map (map_input code)).map (map_output code)

theorem LaidOut.segmentOpen {m : PagedMemory} {segment : Word} (h : LaidOut m)
    (hsegment : segment.toNat ≤ 0x2000) : m.SegmentOpen segment := by
  intro offset
  have haddress : (FarPointer.mk segment offset).linear < 3 * segmentSize := by
    have hoffset := offset.isLt
    simp only [FarPointer.linear, segmentSize]
    omega
  exact ⟨⟨_, h.locate_eq_ok .read haddress⟩, ⟨_, h.locate_eq_ok .write haddress⟩⟩

end Sandbox

namespace Machine

open StackOperation Encoding

/-- A machine that is about to push all registers and to pop them again. Its stack begins in the
middle of a word at the foot of its segment. -/
def savingAll : Machine :=
  Sandbox.running [0x60, 0x61] { Registers.initial with ax := 0x1234, ss := 0x1000, sp := 1 }

theorem stack_does_as_list_savingAll :
    (∃ last, (performAll [push 0x1234, push 0x5678, pop, push 0x9abc, pop, pop]).run savingAll
        = (.ok [0x5678, 0x9abc, 0x1234], last) ∧ last.registers.sp = 1)
      ∧ savingAll.step.2.step.2.registers
        = { savingAll.registers with ip := savingAll.registers.ip + 2 } := by
  let pushing : Head := ⟨[], 0x60, none, by decide, by decide, rfl, rfl⟩
  let popping : Head := ⟨[], 0x61, none, by decide, by decide, rfl, rfl⟩
  have hlaidOut := Sandbox.laidOut_initialMemory (Image.encode [0x60, 0x61])
  obtain ⟨hsequences, -, hall⟩ := stack_does_as_list (m := savingAll)
    (Sandbox.built_initialMemory _) hlaidOut.unaliased (hlaidOut.segmentOpen (by decide))
  constructor
  · obtain ⟨last, hrun, hstacked⟩ := hsequences
      [push 0x1234, push 0x5678, pop, push 0x9abc, pop, pop] (by simp [Fits, capacity])
    exact ⟨last, hrun, congrArg Registers.sp hstacked.registers⟩
  · refine (hall pushing popping rfl rfl (Sandbox.faces_running _ (by decide)) fun i hi => ?_).2.2.1
    obtain rfl : i = 0 := Nat.lt_one_iff.mp hi
    -- The code lies in the first segment of the sandbox, and the stack in the second.
    intro hcovers
    exact absurd hcovers.le (by decide)

end Machine

end CmStream
