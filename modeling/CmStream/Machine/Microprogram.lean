import CmStream.Machine.Registers
import CmStream.Machine.Arithmetic
import CmStream.Memory.PagedMemory

/-!
# What an instruction does, as a sequence of effects

An instruction looks at the registers, replaces them, and loads and stores single bytes; it ends
with a value or gives up for a stated cause. Nothing else can happen to a machine, so what is
true of these few effects is true of every instruction. Effects that precede a refused access
are not taken back.
-/

namespace CmStream

/-- Why an instruction gives up. -/
inductive Cause where
  /-- An access was refused. -/
  | fault (fault : Fault)
  /-- There is no such instruction. -/
  | undefinedOpcode (opcode : Byte)
  /-- The instruction needs equipment that the machine lacks. -/
  | unsupportedOpcode (opcode : Byte)
  | interrupt (vector : Byte)
  /-- A divisor of zero, or a quotient that is too large. -/
  | divideError
  deriving DecidableEq, Repr

namespace Cause

/-- Is the cause a refused access? -/
def isFault : Cause → Bool
  | fault _ => true
  | _ => false

def message : Cause → String
  | fault f => f.message
  | undefinedOpcode opcode => "undefined opcode " ++ Text.markedHex 2 opcode.toNat
  | unsupportedOpcode opcode => "unsupported opcode " ++ Text.markedHex 2 opcode.toNat
  | interrupt vector => "software interrupt " ++ Text.markedHex 2 vector.toNat
  | divideError => "divide error"

end Cause

/-- A machine: registers, and the memory that it can reach. -/
structure Machine where
  registers : Registers
  memory : PagedMemory
  deriving DecidableEq, Repr

inductive Microprogram (α : Type) : Type where
  | done (value : α)
  /-- Gives up. That an access is refused, only the memory can say. -/
  | raise (cause : Cause) (own : cause.isFault = false)
  /-- Reads data or fetches code; nothing is loaded by way of a permission to write. -/
  | load (access : Access) (reads : access ≠ .write) (place : FarPointer)
      (next : Byte → Microprogram α)
  | store (place : FarPointer) (value : Byte) (next : Unit → Microprogram α)
  | inspect (next : Registers → Microprogram α)
  | replace (registers : Registers) (next : Unit → Microprogram α)

namespace Microprogram

variable {α β γ : Type}

/-- The effects of one program and then those of another that may depend on the first's value. -/
def andThen : Microprogram α → (α → Microprogram β) → Microprogram β
  | done value, f => f value
  | raise cause own, _ => raise cause own
  | load access reads place next, f => load access reads place fun byte => andThen (next byte) f
  | store place value next, f => store place value fun u => andThen (next u) f
  | inspect next, f => inspect fun registers => andThen (next registers) f
  | replace registers next, f => replace registers fun u => andThen (next u) f

instance : Monad Microprogram where
  pure := done
  bind := andThen

theorem bind_eq_andThen (p : Microprogram α) (f : α → Microprogram β) : p >>= f = p.andThen f :=
  rfl

theorem andThen_done (p : Microprogram α) : p.andThen done = p := by
  induction p with
  | done | raise => rfl
  | load access reads place next ih => simp only [andThen, ih]
  | store place value next ih => simp only [andThen, ih]
  | inspect next ih => simp only [andThen, ih]
  | replace registers next ih => simp only [andThen, ih]

theorem andThen_assoc (p : Microprogram α) (f : α → Microprogram β) (g : β → Microprogram γ) :
    (p.andThen f).andThen g = p.andThen fun value => (f value).andThen g := by
  induction p with
  | done | raise => rfl
  | load access reads place next ih => simp only [andThen, ih]
  | store place value next ih => simp only [andThen, ih]
  | inspect next ih => simp only [andThen, ih]
  | replace registers next ih => simp only [andThen, ih]

instance : LawfulMonad Microprogram :=
  LawfulMonad.mk' Microprogram (fun p => andThen_done p) (fun _ _ => rfl)
    (fun p f g => andThen_assoc p f g)

/-! ## Running -/

/-- The value or the cause at the end, and the machine as it is then. -/
def run : Microprogram α → Machine → Except Cause α × Machine
  | done value, m => (.ok value, m)
  | raise cause _, m => (.error cause, m)
  | load access _ place next, m =>
    match m.memory.read access place.linear with
    | .ok byte => (next byte).run m
    | .error fault => (.error (.fault fault), m)
  | store place value next, m =>
    match m.memory.locate .write place.linear with
    | .ok slot => (next ()).run { m with memory := m.memory.setByteAt slot value }
    | .error fault => (.error (.fault fault), m)
  | inspect next, m => (next m.registers).run m
  | replace registers next, m => (next ()).run { m with registers := registers }

theorem run_pure (value : α) (m : Machine) :
    (pure value : Microprogram α).run m = (.ok value, m) := rfl

theorem run_bind (p : Microprogram α) (f : α → Microprogram β) (m : Machine) :
    (p >>= f).run m = match p.run m with
      | (.ok value, after) => (f value).run after
      | (.error cause, after) => (.error cause, after) := by
  rw [bind_eq_andThen]
  induction p generalizing m with
  | done | raise => rfl
  | load access reads place next ih =>
    simp only [andThen, run]
    split <;> simp_all
  | store place value next ih =>
    simp only [andThen, run]
    split <;> simp_all
  | inspect next ih => simp only [andThen, run, ih]
  | replace registers next ih => simp only [andThen, run, ih]

/-! ## Single effects -/

def giveUp (cause : Cause) (own : cause.isFault = false := by exact (rfl : false = false)) :
    Microprogram α :=
  raise cause own

def registers : Microprogram Registers := inspect done

def setRegisters (r : Registers) : Microprogram Unit := replace r done

def modifyRegisters (change : Registers → Registers) : Microprogram Unit :=
  inspect fun r => replace (change r) done

def loadByte (access : Access) (place : FarPointer) (reads : access ≠ .write := by decide) :
    Microprogram Byte :=
  load access reads place done

def storeByte (place : FarPointer) (value : Byte) : Microprogram Unit := store place value done

/-! ## Data -/

/-- Two bytes one after the other in their segment. -/
def loadWord (place : FarPointer) : Microprogram Word := do
  let first ← loadByte .read place
  let second ← loadByte .read (place.advance 1)
  return Word.ofBytes first second

/-- Stores the lower byte first. -/
def storeWord (place : FarPointer) (value : Word) : Microprogram Unit := do
  storeByte place (Word.low value)
  storeByte (place.advance 1) (Word.high value)

def loadData (width : Width) (place : FarPointer) : Microprogram (BitVec width.bits) :=
  match width with
  | .byte => loadByte .read place
  | .word => loadWord place

def storeData (width : Width) (place : FarPointer) (value : BitVec width.bits) :
    Microprogram Unit :=
  match width with
  | .byte => storeByte place value
  | .word => storeWord place value

/-- A pointer in memory: the offset, and behind it the segment. -/
def loadPointer (place : FarPointer) : Microprogram FarPointer := do
  let offset ← loadWord place
  let segment ← loadWord (place.advance 2)
  return ⟨segment, offset⟩

/-! ## Instruction bytes -/

/-- The next byte of the instruction; the instruction pointer moves past it. -/
def fetchByte : Microprogram Byte := do
  let r ← registers
  let byte ← loadByte .execute r.codePointer
  setRegisters { r with ip := r.ip + 1 }
  return byte

def fetchWord : Microprogram Word := do
  let first ← fetchByte
  let second ← fetchByte
  return Word.ofBytes first second

/-- The next byte of the instruction as a signed number, widened to a word. -/
def fetchSigned : Microprogram Word := do
  let byte ← fetchByte
  return byte.signExtend 16

def fetchPointer : Microprogram FarPointer := do
  let offset ← fetchWord
  let segment ← fetchWord
  return ⟨segment, offset⟩

/-! ## The stack -/

/-- The stack grows downward: the stack pointer moves before the word is stored. -/
def push (value : Word) : Microprogram Unit := do
  modifyRegisters fun r => { r with sp := r.sp - 2 }
  let r ← registers
  storeWord r.stackPointer value

def pop : Microprogram Word := do
  let r ← registers
  let value ← loadWord r.stackPointer
  modifyRegisters fun r => { r with sp := r.sp + 2 }
  return value

/-! ## Flags and results -/

/-- Takes over the flags of a computation and hands on its result. -/
def settle {n : Nat} (compute : Word → Computed n) : Microprogram (BitVec n) := do
  let r ← registers
  let computed := compute r.flags
  setRegisters { r with flags := computed.flags }
  return computed.value

end Microprogram

end CmStream
