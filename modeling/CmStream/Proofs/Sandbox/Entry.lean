import CmStream.Proofs.Machine.Running
import CmStream.Proofs.Sandbox.Layout

/-!
# Entering a call

In a memory with the layout of a sandbox every pointer below the end of the third region can be
followed, so loads and stores are reads and writes of bytes of regions. In particular the
registers and the return address of a call are always set up, whatever an earlier call has left.
-/

namespace CmStream

namespace Sandbox

namespace LaidOut

variable {m : PagedMemory} {place : FarPointer} {index offset : Nat}

theorem locate_offset (h : LaidOut m) (access : Access) (hindex : index < 3)
    (hoffset : offset < segmentSize) :
    m.locate access (index * segmentSize + offset) = .ok ⟨index, offset⟩ := by
  have haddress : index * segmentSize + offset < 3 * segmentSize := by
    simp only [segmentSize] at hoffset ⊢
    omega
  have hregion : (index * segmentSize + offset) / segmentSize = index := by
    simp only [segmentSize] at hoffset ⊢
    omega
  have hbyte : (index * segmentSize + offset) % segmentSize = offset := by
    simp only [segmentSize] at hoffset ⊢
    omega
  rw [h.locate_eq_ok access haddress, hregion, hbyte]

theorem read_offset (h : LaidOut m) (access : Access) (hindex : index < 3)
    (hoffset : offset < segmentSize) :
    m.read access (index * segmentSize + offset) = .ok (m.byteAt ⟨index, offset⟩) := by
  unfold PagedMemory.read
  rw [h.locate_offset access hindex hoffset]
  rfl

theorem locate_linear (h : LaidOut m) (access : Access)
    (hplace : place.linear = index * segmentSize + offset) (hindex : index < 3)
    (hoffset : offset < segmentSize) : m.locate access place.linear = .ok ⟨index, offset⟩ := by
  rw [hplace, h.locate_offset access hindex hoffset]

theorem read_linear (h : LaidOut m) (access : Access)
    (hplace : place.linear = index * segmentSize + offset) (hindex : index < 3)
    (hoffset : offset < segmentSize) :
    m.read access place.linear = .ok (m.byteAt ⟨index, offset⟩) := by
  rw [hplace, h.read_offset access hindex hoffset]

end LaidOut

end Sandbox

namespace Microprogram

open Sandbox

variable {m : Machine} {place : FarPointer} {index offset : Nat}

theorem run_storeByte_laidOut (h : LaidOut m.memory) (value : Byte)
    (hplace : place.linear = index * segmentSize + offset) (hindex : index < 3)
    (hoffset : offset < segmentSize) :
    (storeByte place value).run m
      = (.ok (), { m with memory := m.memory.setByteAt ⟨index, offset⟩ value }) :=
  run_storeByte value (h.locate_linear .write hplace hindex hoffset)

theorem run_loadWord_laidOut (h : LaidOut m.memory)
    (hplace : place.linear = index * segmentSize + offset)
    (hnext : (place.advance 1).linear = index * segmentSize + (offset + 1)) (hindex : index < 3)
    (hoffset : offset + 1 < segmentSize) :
    (loadWord place).run m
      = (.ok (Word.ofBytes (m.memory.byteAt ⟨index, offset⟩)
          (m.memory.byteAt ⟨index, offset + 1⟩)), m) :=
  run_loadWord (h.read_linear .read hplace hindex (Nat.lt_of_succ_lt hoffset))
    (h.read_linear .read hnext hindex hoffset)

theorem run_storeWord_laidOut (h : LaidOut m.memory) (value : Word)
    (hplace : place.linear = index * segmentSize + offset)
    (hnext : (place.advance 1).linear = index * segmentSize + (offset + 1)) (hindex : index < 3)
    (hoffset : offset + 1 < segmentSize) :
    (storeWord place value).run m
      = (.ok (), { m with memory := m.memory.poke index offset (Word.toBytes value) }) := by
  rw [Word.toBytes, PagedMemory.poke_cons, PagedMemory.poke_cons, PagedMemory.poke_nil]
  exact run_storeWord value
    (h.locate_linear .write hplace hindex (Nat.lt_of_succ_lt hoffset))
    (h.locate_linear .write hnext hindex hoffset)

end Microprogram

namespace Sandbox

/-! ## The first instruction of a call -/

/-- The far return address that a decompressor finds on the stack: the halting instruction. -/
def returnAddress : List Byte := [0, 0, 0, 0]

/-- The machine at the first instruction of a call. -/
def entered (s : Sandbox) (block : Block) (header : BlockHeader) : Machine :=
  ⟨entryRegisters s.entry header.control block.uncompressedLength,
    (s.machine.memory.poke inputRegion 0 block.payload).poke codeRegion returnSlot.toNat
      returnAddress⟩

section Entered

variable {s : Sandbox} {block : Block} {header : BlockHeader}

theorem sameShape_entered (s : Sandbox) (block : Block) (header : BlockHeader) :
    s.machine.memory.SameShape (s.entered block header).memory :=
  (PagedMemory.sameShape_poke _ _ _ _).trans (PagedMemory.sameShape_poke _ _ _ _)

theorem laidOut_entered (h : LaidOut s.machine.memory) (block : Block) (header : BlockHeader) :
    LaidOut (s.entered block header).memory :=
  h.of_sameShape (sameShape_entered s block header)

/-- The payload lies in the second region. -/
theorem byteAt_entered_input (h : LaidOut s.machine.memory)
    (hlength : block.payload.length ≤ segmentSize) {i : Nat} (hi : i < block.payload.length) :
    (s.entered block header).memory.byteAt ⟨inputRegion, i⟩ = block.payload[i] := by
  have hsize := h.length inputRegion (by decide)
  have hinside : 0 + i < (s.machine.memory.region inputRegion).size := by
    rw [hsize]
    omega
  have hplaced := PagedMemory.byteAt_poke_add hi hinside
  rw [Nat.zero_add] at hplaced
  unfold entered
  dsimp only
  rw [PagedMemory.byteAt_poke_of_outside, hplaced]
  intro hregion
  contradiction

/-- The far return address lies on the stack. -/
theorem byteAt_entered_return (h : LaidOut s.machine.memory) {i : Nat} (hi : i < 4) :
    (s.entered block header).memory.byteAt ⟨codeRegion, returnSlot.toNat + i⟩ = 0 := by
  have hpoked := h.of_sameShape (PagedMemory.sameShape_poke _ inputRegion 0 block.payload)
  have hsize := hpoked.length codeRegion (by decide)
  have hbelow : returnSlot.toNat + 4 ≤ segmentSize := by decide
  have hinside : i < returnAddress.length := hi
  unfold entered
  dsimp only
  rw [PagedMemory.byteAt_poke_add hinside (by rw [hsize]; omega)]
  have hzero : ∀ j : Fin 4, returnAddress[j] = 0 := by decide
  exact hzero ⟨i, hi⟩

/-- All other bytes are as they were before the call. -/
theorem byteAt_entered_of_outside {slot : Slot}
    (hreturn : slot.region = codeRegion →
      slot.offset < returnSlot.toNat ∨ returnSlot.toNat + 4 ≤ slot.offset)
    (hpayload : slot.region = inputRegion → block.payload.length ≤ slot.offset) :
    (s.entered block header).memory.byteAt slot = s.machine.memory.byteAt slot := by
  unfold entered
  rw [PagedMemory.byteAt_poke_of_outside hreturn, PagedMemory.byteAt_poke_of_outside]
  intro hregion
  rw [Nat.zero_add]
  exact .inr (hpayload hregion)

end Entered

open Microprogram in
theorem run_enter (m : Machine) (r : Registers) (h : LaidOut m.memory)
    (hstack : r.stackPointer = ⟨0, returnSlot⟩) :
    (enter r).run m
      = (.ok (), ⟨r, m.memory.poke codeRegion returnSlot.toNat returnAddress⟩) := by
  have hoffset : (storeWord ⟨0, returnSlot⟩ 0).run { m with registers := r }
      = (.ok (), ⟨r, m.memory.poke codeRegion returnSlot.toNat (Word.toBytes 0)⟩) :=
    run_storeWord_laidOut (m := ⟨r, m.memory⟩) h 0 (by decide) (by decide) (by decide) (by decide)
  -- The offset has been stored; the segment goes right behind it, in a memory of the same layout.
  have hlaid : LaidOut (m.memory.poke codeRegion returnSlot.toNat (Word.toBytes 0)) :=
    h.of_sameShape (PagedMemory.sameShape_poke _ _ _ _)
  have hsegment : (storeWord (FarPointer.advance ⟨0, returnSlot⟩ 2) 0).run
      ⟨r, m.memory.poke codeRegion returnSlot.toNat (Word.toBytes 0)⟩
      = (.ok (), ⟨r, (m.memory.poke codeRegion returnSlot.toNat (Word.toBytes 0)).poke codeRegion
          (returnSlot.toNat + 2) (Word.toBytes 0)⟩) :=
    run_storeWord_laidOut hlaid 0 (by decide) (by decide) (by decide) (by decide)
  unfold enter
  rw [run_bind_of_ok _ (run_setRegisters r), hstack, run_bind_of_ok _ hoffset, hsegment]
  have hjoined := PagedMemory.poke_append m.memory codeRegion returnSlot.toNat (Word.toBytes 0)
    (Word.toBytes 0)
  exact congrArg (fun memory => (Except.ok (), (⟨r, memory⟩ : Machine))) hjoined.symm

/-- A call is always entered. -/
theorem prepare_eq {s : Sandbox} (h : LaidOut s.machine.memory) (block : Block)
    (header : BlockHeader) : s.prepare block header = (.ok (), s.entered block header) := by
  have hpoked : LaidOut (s.machine.memory.poke inputRegion 0 block.payload) :=
    h.of_sameShape (PagedMemory.sameShape_poke _ _ _ _)
  have henter := run_enter
    ⟨s.machine.registers, s.machine.memory.poke inputRegion 0 block.payload⟩
    (entryRegisters s.entry header.control block.uncompressedLength) hpoked rfl
  unfold prepare
  dsimp only
  rw [henter]
  rfl

end Sandbox

end CmStream
