import CmStream.Proofs.Machine.Running

/-!
# Steps of single instructions

What a machine comes to that faces a given instruction, for the instructions that routines are
made of. Each lemma asks for the bytes in front of the machine and gives the whole machine
afterwards, so that a routine is followed by rewriting. At the end is one element of the string
operation that copies.
-/

namespace CmStream

namespace Machine

open Microprogram Instruction

variable {m : Machine} {byte : Byte} {code : List Byte}

/-- The machine with other registers. -/
def withRegisters (m : Machine) (r : Registers) : Machine := { m with registers := r }

theorem run_fetch_register {override : Option Word} (hface : m.Faces (byte :: code))
    (hform : (OperandByte.ofByte byte).namesRegister = true) :
    (Operands.fetch override).run m
      = (.ok ⟨(OperandByte.ofByte byte).field, .register (OperandByte.ofByte byte).form⟩,
        m.skip 1) := by
  unfold Operands.fetch
  rw [run_bind_of_ok _ (run_fetchByte hface)]
  dsimp only
  rw [if_pos hform]
  rfl

/-- A move from one register to another. -/
theorem step_move {opcode : Byte} {width : Width} (hface : m.Faces (opcode :: byte :: code))
    (hopcode : Opcode.ofByte opcode = .instruction (.moveToForm width))
    (hform : (OperandByte.ofByte byte).namesRegister = true) :
    m.step = (.continued, ((m.skip 1).skip 1).withRegisters
      (((m.skip 1).skip 1).registers.set width (OperandByte.ofByte byte).form
        (((m.skip 1).skip 1).registers.get width (OperandByte.ofByte byte).field))) := by
  apply step_of_faces hface hopcode
  unfold perform
  dsimp only
  rw [run_bind_of_ok _ (run_fetch_register hface.tail hform)]
  rfl

/-- An operation on two registers that keeps its result. -/
theorem step_arithmetic {opcode : Byte} {operation : Arithmetic.Operation} {width : Width}
    (hface : m.Faces (opcode :: byte :: code))
    (hopcode : Opcode.ofByte opcode = .instruction (.arithmetic operation .toForm width))
    (hform : (OperandByte.ofByte byte).namesRegister = true)
    (hkeeps : operation.keepsResult = true) :
    let r := ((m.skip 1).skip 1).registers
    let computed := operation.compute (r.get width (OperandByte.ofByte byte).form)
      (r.get width (OperandByte.ofByte byte).field) r.flags
    m.step = (.continued, ((m.skip 1).skip 1).withRegisters
      ({ r with flags := computed.flags }.set width (OperandByte.ofByte byte).form
        computed.value)) := by
  apply step_of_faces hface hopcode
  unfold perform performArithmetic
  dsimp only
  rw [run_bind_of_ok _ (run_fetch_register hface.tail hform), hkeeps]
  rfl

/-- Setting or clearing a flag. -/
theorem step_setFlag {flag : Flag} {value : Bool} (hface : m.Faces (byte :: code))
    (hopcode : Opcode.ofByte byte = .instruction (.setFlag flag value)) :
    m.step = (.continued, (m.skip 1).withRegisters ((m.skip 1).registers.setFlag flag value)) :=
  step_of_faces hface hopcode rfl

theorem value_increment {n : Nat} (a : BitVec n) (flags : Word) :
    (Arithmetic.increment a flags).value = a + 1 := by
  unfold Arithmetic.increment Arithmetic.add Arithmetic.ofCarry
  exact BitVec.add_zero _

/-- Adding one to a register. -/
theorem step_increment {name : WordRegister} (hface : m.Faces (byte :: code))
    (hopcode : Opcode.ofByte byte = .instruction (.increment name)) :
    m.step = (.continued, (m.skip 1).withRegisters
      ({ (m.skip 1).registers with
          flags := (Arithmetic.increment (m.registers.word name) m.registers.flags).flags }.setWord
        name (m.registers.word name + 1))) := by
  have hword : (m.skip 1).registers.word name = m.registers.word name := by
    cases name <;> rfl
  apply step_of_faces hface hopcode
  rw [← value_increment _ m.registers.flags, ← hword]
  rfl

theorem step_halt (hface : m.Faces (byte :: code))
    (hopcode : Opcode.ofByte byte = .instruction .halt) : m.step = (.halted, m.skip 1) :=
  step_of_faces hface hopcode rfl

/-- A repeated string operation without an override handles as many elements as the counter
says. -/
theorem step_repeat {first : Byte} {operation : StringOperation} {width : Width}
    {repetition : Repetition} {last : Machine} (hface : m.Faces (first :: byte :: code))
    (hfirst : Opcode.ofByte first = .modifier (.repetition repetition))
    (hopcode : Opcode.ofByte byte = .instruction (.string operation width))
    (helements : (operation.elements width m.registers.ds repetition m.registers.cx.toNat).run
      ((m.skip 1).skip 1) = (.ok (), last)) : m.step = (.continued, last) :=
  step_of_faces_modified hface hfirst hopcode helements

/-- A string operation that is not repeated. -/
theorem step_string {operation : StringOperation} {width : Width} {last : Machine}
    (hface : m.Faces (byte :: code))
    (hopcode : Opcode.ofByte byte = .instruction (.string operation width))
    (helement : (operation.element width m.registers.ds).run (m.skip 1) = (.ok (), last)) :
    m.step = (.continued, last) :=
  step_of_faces hface hopcode helement

/-! ## Jumps that look at the counter -/

theorem run_fetchSigned (hface : m.Faces (byte :: code)) :
    fetchSigned.run m = (.ok (byte.signExtend 16), m.skip 1) := by
  unfold fetchSigned
  rw [run_bind_of_ok _ (run_fetchByte hface)]
  rfl

section Counter

variable {opcode : Byte} (hface : m.Faces (opcode :: byte :: code))

include hface

theorem step_jumpIfCounterZero_of_eq
    (hopcode : Opcode.ofByte opcode = .instruction .jumpIfCounterZero)
    (hzero : m.registers.cx = 0) :
    m.step = (.continued, ((m.skip 1).skip 1).skip (byte.signExtend 16)) := by
  apply step_of_faces hface hopcode
  unfold perform performJumpIfCounterZero
  dsimp only
  rw [run_bind_of_ok _ (run_fetchSigned hface.tail), run_bind_of_ok _ run_registers]
  have hcounter : ((m.skip 1).skip 1).registers.cx = 0 := hzero
  rw [if_pos hcounter]
  rfl

theorem step_jumpIfCounterZero_of_ne
    (hopcode : Opcode.ofByte opcode = .instruction .jumpIfCounterZero)
    (hmore : m.registers.cx ≠ 0) : m.step = (.continued, (m.skip 1).skip 1) := by
  apply step_of_faces hface hopcode
  unfold perform performJumpIfCounterZero
  dsimp only
  rw [run_bind_of_ok _ (run_fetchSigned hface.tail), run_bind_of_ok _ run_registers]
  have hcounter : ((m.skip 1).skip 1).registers.cx ≠ 0 := hmore
  rw [if_neg hcounter]
  rfl

/-- A loop counts down and jumps as long as the counter has not come to zero. -/
theorem step_loop_of_ne (hopcode : Opcode.ofByte opcode = .instruction (.loop .always))
    (hmore : m.registers.cx - 1 ≠ 0) :
    m.step = (.continued, (((m.skip 1).skip 1).skip (byte.signExtend 16)).withRegisters
      { (((m.skip 1).skip 1).skip (byte.signExtend 16)).registers with
        cx := m.registers.cx - 1 }) := by
  apply step_of_faces hface hopcode
  unfold perform performLoop
  dsimp only
  rw [run_bind_of_ok _ (run_fetchSigned hface.tail), run_bind_of_ok _ (run_modifyRegisters _),
    run_bind_of_ok _ run_registers]
  have hcounter : (m.registers.cx - 1 != 0) = true := bne_iff_ne.mpr hmore
  simp only [skip, LoopCondition.holds, hcounter, Bool.and_self, if_true]
  rfl

theorem step_loop_of_eq (hopcode : Opcode.ofByte opcode = .instruction (.loop .always))
    (hzero : m.registers.cx - 1 = 0) :
    m.step = (.continued, ((m.skip 1).skip 1).withRegisters
      { ((m.skip 1).skip 1).registers with cx := m.registers.cx - 1 }) := by
  apply step_of_faces hface hopcode
  unfold perform performLoop
  dsimp only
  rw [run_bind_of_ok _ (run_fetchSigned hface.tail), run_bind_of_ok _ (run_modifyRegisters _),
    run_bind_of_ok _ run_registers]
  simp only [skip, hzero]
  rfl

end Counter

/-! ## The stack -/

theorem run_pop {r : Registers} {memory : PagedMemory} {value : Word}
    (hload : (loadWord r.stackPointer).run ⟨r, memory⟩ = (.ok value, ⟨r, memory⟩)) :
    pop.run ⟨r, memory⟩ = (.ok value, ⟨{ r with sp := r.sp + 2 }, memory⟩) := by
  unfold pop
  rw [run_bind_of_ok _ run_registers, run_bind_of_ok _ hload]
  rfl

theorem run_push {r : Registers} {memory after : PagedMemory} {value : Word}
    (hstore : (storeWord ⟨r.ss, r.sp - 2⟩ value).run ⟨{ r with sp := r.sp - 2 }, memory⟩
      = (.ok (), ⟨{ r with sp := r.sp - 2 }, after⟩)) :
    (push value).run ⟨r, memory⟩ = (.ok (), ⟨{ r with sp := r.sp - 2 }, after⟩) := by
  unfold push
  rw [run_bind_of_ok _ (run_modifyRegisters _), run_bind_of_ok _ run_registers]
  exact hstore

theorem step_pushRegister {name : WordRegister} {after : PagedMemory}
    (hface : m.Faces (byte :: code))
    (hopcode : Opcode.ofByte byte = .instruction (.pushRegister name))
    (hstore : ∀ r, (storeWord ⟨m.registers.ss, m.registers.sp - 2⟩ (m.registers.word name)).run
      ⟨r, m.memory⟩ = (.ok (), ⟨r, after⟩)) :
    m.step = (.continued, ⟨{ (m.skip 1).registers with sp := m.registers.sp - 2 }, after⟩) := by
  have hword : (m.skip 1).registers.word name = m.registers.word name := by
    cases name <;> rfl
  apply step_of_faces hface hopcode
  unfold perform
  dsimp only
  rw [run_bind_of_ok _ run_registers, hword]
  exact run_push (hstore _)

theorem step_popRegister {name : WordRegister} {value : Word} (hface : m.Faces (byte :: code))
    (hopcode : Opcode.ofByte byte = .instruction (.popRegister name))
    (hload : ∀ r, (loadWord m.registers.stackPointer).run ⟨r, m.memory⟩
      = (.ok value, ⟨r, m.memory⟩)) :
    m.step = (.continued, m.withRegisters
      ({ (m.skip 1).registers with sp := m.registers.sp + 2 }.setWord name value)) := by
  apply step_of_faces hface hopcode
  unfold perform
  dsimp only
  rw [run_bind_of_ok (m := m.skip 1) _ (run_pop (r := (m.skip 1).registers) (hload _))]
  rfl

/-- A far return takes the offset and then the segment off the stack. -/
theorem step_returnFar {offset segment : Word} (hface : m.Faces (byte :: code))
    (hopcode : Opcode.ofByte byte = .instruction (.returnFar false))
    (hoffset : ∀ r, (loadWord m.registers.stackPointer).run ⟨r, m.memory⟩
      = (.ok offset, ⟨r, m.memory⟩))
    (hsegment : ∀ r, (loadWord (m.registers.stackPointer.advance 2)).run ⟨r, m.memory⟩
      = (.ok segment, ⟨r, m.memory⟩)) :
    m.step = (.continued, m.withRegisters { m.registers with
      ip := offset, cs := segment, sp := m.registers.sp + 2 + 2 + 0 }) := by
  apply step_of_faces hface hopcode
  have hrelease : (fetchRelease false).run (m.skip 1) = (.ok 0, m.skip 1) := rfl
  unfold perform performReturnFar jumpTo
  dsimp only
  rw [run_bind_of_ok _ hrelease]
  show (pop >>= _).run ⟨(m.skip 1).registers, m.memory⟩ = _
  rw [run_bind_of_ok _ (run_pop (r := (m.skip 1).registers) (hoffset _)),
    run_bind_of_ok _ (run_modifyRegisters _)]
  show (pop >>= _).run
    ⟨{ m.registers with ip := offset, sp := m.registers.sp + 2 }, m.memory⟩ = _
  rw [run_bind_of_ok _ (run_pop
    (r := { m.registers with ip := offset, sp := m.registers.sp + 2 }) (hsegment _))]
  rfl

end Machine

/-! ## Elements of string operations -/

namespace StringOperation

open Microprogram

/-- One byte is copied, and both indices move on. -/
theorem run_element_movs {m : Machine} {segment : Word} {value : Byte} {slot : Slot}
    (hread : m.memory.read .read (FarPointer.mk segment m.registers.si).linear = .ok value)
    (hwrite : m.memory.locate .write (FarPointer.mk m.registers.es m.registers.di).linear
      = .ok slot) :
    (element .movs .byte segment).run m
      = (.ok (), ⟨advance .movs .byte m.registers, m.memory.setByteAt slot value⟩) := by
  have hhandle : (handle .movs .byte segment).run m
      = (.ok (), { m with memory := m.memory.setByteAt slot value }) := by
    unfold handle
    rw [run_bind_of_ok _ run_registers]
    dsimp only
    unfold loadData storeData
    dsimp only
    rw [run_bind_of_ok _ (run_loadByte (by decide) hread)]
    exact run_storeByte value hwrite
  unfold element
  rw [run_bind_of_ok _ hhandle, run_modifyRegisters]

end StringOperation

end CmStream
