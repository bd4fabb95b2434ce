import CmStream.Proofs.Container.Written
import CmStream.Proofs.Machine.Running
import CmStream.Proofs.Sandbox.Entry

/-!
# Where a routine lies

A routine that has been written as an image lies in the sandbox right behind the header of the
image, and the halting instruction lies at the foot. Payloads, the stack and the output are
elsewhere, so both outlast every call of the routine. A machine that has come to the k-th byte of
the routine faces what is left of it.
-/

namespace CmStream

namespace Sandbox

/-- The place of the first byte of a routine in the first region. -/
def routineStart : Nat := stackReserve + Image.headerLength

/-- A sandbox's memory with a routine in it. -/
structure Loaded (routine : List Byte) (m : PagedMemory) : Prop where
  laidOut : LaidOut m
  room : routineStart + routine.length ≤ segmentSize
  foot : m.byteAt ⟨codeRegion, 0⟩ = haltingByte
  code : ∀ i, (hi : i < routine.length) → m.byteAt ⟨codeRegion, routineStart + i⟩ = routine[i]

namespace Loaded

variable {routine : List Byte} {m : PagedMemory}

/-- Bytes that are put between the foot and the image, or into another region, do no harm. -/
theorem poke {index offset : Nat} {bytes : List Byte} (h : Loaded routine m)
    (hplace : index = codeRegion → 0 < offset ∧ offset + bytes.length ≤ stackReserve) :
    Loaded routine (m.poke index offset bytes) where
  laidOut := h.laidOut.of_sameShape (PagedMemory.sameShape_poke _ _ _ _)
  room := h.room
  foot := by
    rw [PagedMemory.byteAt_poke_of_outside, h.foot]
    intro hregion
    exact .inl (hplace hregion.symm).1
  code i hi := by
    rw [PagedMemory.byteAt_poke_of_outside, h.code i hi]
    intro hregion
    have hbelow := (hplace hregion.symm).2
    refine .inr (Nat.le_trans hbelow ?_)
    show stackReserve ≤ stackReserve + Image.headerLength + i
    omega

end Loaded

/-- A byte of what follows the front of some bytes. -/
theorem getElem_front_add {bytes front rest : List Byte} (heq : bytes = front ++ rest) {i : Nat}
    (hi : i < rest.length) (hinside : front.length + i < bytes.length) :
    bytes[front.length + i] = rest[i] := by
  subst heq
  rw [List.getElem_append_right (Nat.le_add_right _ _)]
  congr 1
  exact Nat.add_sub_cancel_left _ _

theorem byteAt_initialMemory (code : List Byte) (slot : Slot) :
    (initialMemory code).byteAt slot = (contents code).byteAt slot := by
  unfold initialMemory mapSegment
  rw [PagedMemory.byteAt_mapPages, PagedMemory.byteAt_mapPages, PagedMemory.byteAt_mapPages]

theorem byteAt_contents_foot (code : List Byte) :
    (contents code).byteAt ⟨codeRegion, 0⟩ = haltingByte := by
  have hsize : ((contents code).region codeRegion).size = segmentSize :=
    size_region_contents code (by decide)
  unfold contents at hsize ⊢
  rw [PagedMemory.byteAt_poke_of_outside fun _ => .inl (by decide)]
  rw [← (PagedMemory.sameShape_poke _ _ _ _).length, ← (PagedMemory.sameShape_poke _ _ _ _).length]
    at hsize
  have hinside : 0 < [haltingByte].length := Nat.zero_lt_one
  rw [← Nat.add_zero 0]
  apply PagedMemory.byteAt_poke_add hinside
  rw [hsize]
  decide

theorem byteAt_contents_code {code : List Byte} {i : Nat} (hi : i < code.length)
    (hlength : code.length ≤ codeSpace) :
    (contents code).byteAt ⟨codeRegion, stackReserve + i⟩ = code[i] := by
  have hsize : ((contents code).region codeRegion).size = segmentSize :=
    size_region_contents code (by decide)
  unfold contents at hsize ⊢
  rw [← (PagedMemory.sameShape_poke _ _ _ _).length] at hsize
  apply PagedMemory.byteAt_poke_add hi
  rw [hsize]
  have hreserve : stackReserve ≤ segmentSize := by decide
  unfold codeSpace at hlength
  omega

/-- The memory that a sandbox begins with, for the image of a routine. -/
theorem loaded_initialMemory {routine : List Byte}
    (hlength : (Image.encode routine).length ≤ codeSpace) :
    Loaded routine (initialMemory (Image.encode routine)) := by
  have hentry : Image.headerLength ≤ (BitVec.ofNat 16 Image.headerLength).toNat := by decide
  obtain ⟨front, tail, heq, hfront⟩ := Image.exists_encodeAt_eq_append hentry routine
  change Image.encode routine = _ at heq
  change front.length = Image.headerLength at hfront
  have hsum : (Image.encode routine).length
      = Image.headerLength + routine.length + tail.length := by
    rw [heq, List.length_append, List.length_append, hfront]
  refine ⟨laidOut_initialMemory _, ?_, ?_, fun i hi => ?_⟩
  · unfold routineStart
    unfold codeSpace at hlength
    have hreserve : stackReserve ≤ segmentSize := by decide
    omega
  · rw [byteAt_initialMemory, byteAt_contents_foot]
  · have hinside : Image.headerLength + i < (Image.encode routine).length := by
      omega
    rw [byteAt_initialMemory, routineStart, Nat.add_assoc,
      byteAt_contents_code hinside hlength]
    have hrest : i < (routine ++ tail).length := by
      rw [List.length_append]
      omega
    rw [List.append_assoc] at heq
    have hfound := getElem_front_add heq hrest (by rw [hfront]; exact hinside)
    rw [List.getElem_append_left hi] at hfound
    rw [← hfound]
    congr 1
    rw [hfront]

/-- A sandbox in which a routine waits for the next block. -/
structure Ready (routine : List Byte) (s : Sandbox) : Prop where
  loaded : Loaded routine s.machine.memory
  entry : s.entry = BitVec.ofNat 16 Image.headerLength

theorem ready_initial {routine : List Byte} {image : Image}
    (hentry : image.entry = BitVec.ofNat 16 Image.headerLength)
    (hcode : image.code = Image.encode routine)
    (hlength : (Image.encode routine).length ≤ codeSpace) : Ready routine (initial image) := by
  refine ⟨?_, hentry⟩
  unfold initial
  rw [hcode]
  exact loaded_initialMemory hlength

/-! ## Far pointers into the segments -/

theorem linear_segment {index offset : Nat} (hindex : index < 3) (hoffset : offset < segmentSize) :
    (FarPointer.mk (segmentAt (regionBase index)) (BitVec.ofNat 16 offset)).linear
      = index * segmentSize + offset := by
  unfold FarPointer.linear segmentAt regionBase
  simp only [BitVec.toNat_ofNat, segmentSize, paragraph] at hoffset ⊢
  omega

theorem linear_code {offset : Nat} (hoffset : stackReserve + offset < segmentSize) :
    (FarPointer.mk (segmentAt stackReserve) (BitVec.ofNat 16 offset)).linear
      = codeRegion * segmentSize + (stackReserve + offset) := by
  unfold FarPointer.linear segmentAt
  simp only [BitVec.toNat_ofNat, segmentSize, stackReserve, paragraph, codeRegion] at hoffset ⊢
  omega

/-! ## Following a routine -/

/-- A machine that has come to the k-th byte of a routine. -/
structure At (routine : List Byte) (k : Nat) (m : Machine) : Prop where
  loaded : Loaded routine m.memory
  place : m.registers.codePointer
    = ⟨segmentAt stackReserve, BitVec.ofNat 16 (Image.headerLength + k)⟩

namespace At

variable {routine : List Byte} {k : Nat} {m m' : Machine}

theorem faces (h : At routine k m) : m.Faces (routine.drop k) := by
  intro i hi
  have hroom := h.loaded.room
  have hinside : k + i < routine.length := by
    rw [List.length_drop] at hi
    omega
  have hadvance : m.registers.codePointer.advance (BitVec.ofNat 16 i)
      = ⟨segmentAt stackReserve, BitVec.ofNat 16 (Image.headerLength + (k + i))⟩ := by
    rw [h.place, ← Nat.add_assoc, BitVec.ofNat_add (Image.headerLength + k)]
    rfl
  -- The routine ends inside of the segment, so no offset in it wraps.
  have hoffset : stackReserve + (Image.headerLength + (k + i)) < segmentSize := by
    unfold routineStart at hroom
    omega
  rw [hadvance, h.loaded.laidOut.read_linear .execute (linear_code hoffset) (by decide) hoffset,
    List.getElem_drop, ← h.loaded.code (k + i) hinside, routineStart, Nat.add_assoc]

/-- On to another byte of the routine. -/
theorem move {j : Nat} (h : At routine k m) (hloaded : Loaded routine m'.memory)
    (hcs : m'.registers.cs = m.registers.cs)
    (hip : m'.registers.ip = m.registers.ip + BitVec.ofNat 16 j) : At routine (k + j) m' := by
  obtain ⟨hsegment, hoffset⟩ := FarPointer.mk.inj h.place
  refine ⟨hloaded, ?_⟩
  unfold Registers.codePointer
  rw [hcs, hip, hsegment, hoffset, ← BitVec.ofNat_add, Nat.add_assoc]

end At

/-- A machine that has returned to the foot faces the halting instruction. -/
theorem faces_foot {routine : List Byte} {m : Machine} (h : Loaded routine m.memory)
    (hplace : m.registers.codePointer = ⟨0, 0⟩) : m.Faces [haltingByte] := by
  intro i hi
  obtain rfl : i = 0 := Nat.lt_one_iff.mp hi
  have hlinear : (FarPointer.mk 0 0).linear = codeRegion * segmentSize + 0 := by decide
  rw [FarPointer.advance_zero, hplace,
    h.laidOut.read_linear .execute hlinear (by decide) (by decide), h.foot]
  rfl

/-! ## The machine at the first instruction -/

theorem at_entered {routine : List Byte} {s : Sandbox} {block : Block} {header : BlockHeader}
    (h : Ready routine s) : At routine 0 (s.entered block header) := by
  refine ⟨(h.loaded.poke ?_).poke fun _ => ?_, ?_⟩
  · intro hregion
    contradiction
  · decide
  · unfold entered entryRegisters Registers.codePointer
    rw [h.entry]
    rfl

end Sandbox

end CmStream
