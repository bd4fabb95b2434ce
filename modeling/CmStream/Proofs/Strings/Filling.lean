import CmStream.Proofs.Strings.Repeating

/-!
# Repeated stores

A repeated store fills its elements with the accumulator. The offsets wrap within the segment, so
elements may meet, up to the whole segment twice over. Words that meet do so byte for byte, since
they move by words: a byte that is stored to again gets the value that it has already.
-/

namespace CmStream

open Encoding Machine Microprogram StringOperation

/-! ## Storing data -/

/-- The bytes of an operand in the order in which they are stored. -/
def Width.toBytes : (width : Width) → BitVec width.bits → List Byte
  | .byte, value => [value]
  | .word, value => Word.toBytes value

/-- The accumulator of a width is as many bytes of the whole. -/
theorem Registers.toBytes_get (r : Registers) {width : Width} {j : Nat}
    (hj : j < width.size.toNat) :
    (width.toBytes (r.get width 0))[j]? = (Word.toBytes r.ax)[j]? := by
  cases width with
  | word => rfl
  | byte =>
    obtain rfl : j = 0 := Nat.lt_one_iff.mp hj
    rfl

/-- What a store of data leaves behind: the data at the addresses of its bytes, and every other byte
as it was. -/
structure Stored (width : Width) (place : FarPointer) (value : BitVec width.bits)
    (before after : PagedMemory) : Prop where
  outside : before.SameOutside (before.Behind (place.Covers width)) after
  bytes : ∀ j, j < width.size.toNat →
    after.byte? (place.advance (BitVec.ofNat 16 j)).linear = (width.toBytes value)[j]?

namespace Microprogram

open PagedMemory

theorem exists_run_storeData {m : Machine} {width : Width} {place : FarPointer}
    (htiled : m.memory.Tiled) (hunaliased : m.memory.Unaliased) (value : BitVec width.bits)
    (hwritable : ∀ address, place.Covers width address → m.memory.Permits .write address) :
    ∃ after, (storeData width place value).run m = (.ok (), { m with memory := after })
      ∧ Stored width place value m.memory after := by
  have hplace : place.advance (BitVec.ofNat 16 0) = place := place.advance_zero
  have hlower (hwidth : 0 < width.size.toNat) : place.Covers width place.linear :=
    ⟨0, hwidth, by rw [hplace]⟩
  cases width with
  | byte =>
    obtain ⟨slot, hslot⟩ := hwritable place.linear (hlower Nat.one_pos)
    refine ⟨_, run_storeByte value hslot, ?_, fun j hj => ?_⟩
    · refine (SameOutside.setByteAt_self (backing?_of_locate hslot) value).mono ?_
      rintro address rfl
      exact hlower Nat.one_pos
    · obtain rfl : j = 0 := Nat.lt_one_iff.mp hj
      rw [hplace, htiled.byte?_setByteAt hunaliased hslot, if_pos rfl]
      rfl
  | word =>
    obtain ⟨first, hfirst⟩ := hwritable place.linear (hlower Nat.two_pos)
    obtain ⟨second, hsecond⟩ := hwritable (place.advance 1).linear ⟨1, Nat.one_lt_two, rfl⟩
    have hshape := sameShape_setByteAt m.memory first (Word.low value)
    have hsecond' := hsecond
    rw [hshape.locate_eq] at hsecond'
    refine ⟨_, run_storeWord value hfirst hsecond, ?_, fun j hj => ?_⟩
    · refine (SameOutside.setByteAt_self (backing?_of_locate hfirst) (Word.low value)).append
        (.setByteAt_self (backing?_of_locate hsecond') (Word.high value)) ?_
      rintro address (rfl | rfl)
      · exact hlower Nat.two_pos
      · exact ⟨1, Nat.one_lt_two, rfl⟩
    · have hne : place.linear ≠ (place.advance 1).linear := fun heq =>
        linear_advance_one_ne place (congrArg (· % pageSize) heq)
      rw [(htiled.of_sameShape hshape).byte?_setByteAt (hunaliased.of_sameShape hshape) hsecond',
        htiled.byte?_setByteAt hunaliased hfirst]
      have hcases : j = 0 ∨ j = 1 := Nat.le_one_iff_eq_zero_or_eq_one.mp (Nat.le_of_lt_succ hj)
      rcases hcases with rfl | rfl
      · rw [hplace, if_neg hne, if_pos rfl]
        rfl
      · exact if_pos rfl

end Microprogram

/-! ## Where elements meet -/

namespace StringOperation

theorem two_dvd_stride (r : Registers) : 2 ∣ (stride .word r).toNat := by
  unfold stride
  split <;> decide

/-- Elements meet byte for byte: the lower byte of a word never lies where the upper byte of another
does. -/
theorem eq_of_covers {m : Machine} {width : Width} {i k j : Nat} (hj : j < width.size.toNat)
    (hcovers : (m.destinationOf width i).Covers width
      ((m.destinationOf width k).advance (BitVec.ofNat 16 j)).linear) :
    ((m.destinationOf width k).advance (BitVec.ofNat 16 j)).linear
      = ((m.destinationOf width i).advance (BitVec.ofNat 16 j)).linear := by
  obtain ⟨j', hj', heq⟩ := hcovers
  suffices hsame : j' = j by rw [heq, hsame]
  cases width with
  | byte =>
    have hbyte : j < 1 := hj
    have hbyte' : j' < 1 := hj'
    omega
  | word =>
    have hword : j < 2 := hj
    have hword' : j' < 2 := hj'
    have hoffset := congrArg BitVec.toNat (FarPointer.linear_injective heq)
    simp only [destinationOf, BitVec.toNat_add, BitVec.toNat_mul, BitVec.toNat_ofNat] at hoffset
    obtain ⟨half, hhalf⟩ := two_dvd_stride m.registers
    rw [hhalf, Nat.mul_left_comm, Nat.mul_left_comm (i % _)] at hoffset
    -- Words move by an even number of bytes, also around the end of the segment.
    generalize k % 2 ^ 16 * half = a at hoffset
    generalize i % 2 ^ 16 * half = b at hoffset
    omega

/-! ## One element -/

/-- What has become of a machine when `i` elements have been filled. -/
structure Filled (m : Machine) (width : Width) (i : Nat) (now : Machine) : Prop where
  registers : now.registers = registersAfter .stos width m.registers i
  outside : m.memory.SameOutside
    (m.memory.Behind fun address => ∃ k, k < i ∧ (m.destinationOf width k).Covers width address)
    now.memory
  bytes : ∀ k j, k < i → j < width.size.toNat →
    now.memory.byte? ((m.destinationOf width k).advance (BitVec.ofNat 16 j)).linear
      = (Word.toBytes m.registers.ax)[j]?

variable {m now : Machine} {width : Width} {i : Nat}

theorem Filled.start (m : Machine) (width : Width) : Filled m width 0 m where
  registers := (registersAfter_zero .stos width m.registers).symm
  outside := .refl _ _
  bytes _ _ hk _ := absurd hk (Nat.not_lt_zero _)

/-- One more element. -/
theorem Filled.next (hbuilt : m.memory.Built) (hunaliased : m.memory.Unaliased)
    (hwritable : ∀ address, m.Fills width address → m.memory.Permits .write address)
    (h : Filled m width i now) (hi : i < m.registers.cx.toNat) (segment : Word) :
    ∃ after, (element .stos width segment).run now = (.ok (), after)
      ∧ Filled m width (i + 1) after.counted := by
  have hshape := h.outside.shape
  have hpermits (address : Nat) (haddress : (m.destinationOf width i).Covers width address) :
      now.memory.Permits .write address :=
    hshape.permits_iff.mp (hwritable address ⟨i, hi, haddress⟩)
  obtain ⟨after, hrun, hstored⟩ := exists_run_storeData (hbuilt.tiled.of_sameShape hshape)
    (hunaliased.of_sameShape hshape) (m.registers.get width 0) hpermits
  have hhandle : (handle .stos width segment).run now = (.ok (), { now with memory := after }) := by
    have hplace : FarPointer.mk now.registers.es now.registers.di = m.destinationOf width i := by
      rw [h.registers]
      rfl
    have hvalue : now.registers.get width 0 = m.registers.get width 0 := by
      rw [h.registers, get_registersAfter]
    unfold handle
    rw [run_bind_of_ok _ run_registers]
    dsimp only
    rw [hplace, hvalue]
    exact hrun
  refine ⟨⟨advance .stos width now.registers, after⟩, ?_, ?_, ?_, fun k j hk hj => ?_⟩
  · unfold element
    rw [run_bind_of_ok _ hhandle, run_modifyRegisters]
  · exact registersAfter_succ_of_eq h.registers
  · refine h.outside.append hstored.outside ?_
    rintro address (⟨k, hk, haddress⟩ | haddress)
    · exact ⟨k, Nat.lt_succ_of_lt hk, haddress⟩
    · exact ⟨i, Nat.lt_succ_self i, haddress⟩
  · show after.byte? _ = _
    by_cases hcovers : (m.destinationOf width i).Covers width
        ((m.destinationOf width k).advance (BitVec.ofNat 16 j)).linear
    · rw [eq_of_covers hj hcovers, hstored.bytes j hj, Registers.toBytes_get _ hj]
    · have hne : k ≠ i := by
        rintro rfl
        exact hcovers ⟨j, hj, rfl⟩
      rw [hstored.outside.byte?_eq (hunaliased.of_sameShape hshape) hcovers]
      exact h.bytes k j (Nat.lt_of_le_of_ne (Nat.le_of_lt_succ hk) hne) hj

/-- All elements. -/
theorem exists_run_fill (hbuilt : m.memory.Built) (hunaliased : m.memory.Unaliased)
    (hwritable : ∀ address, m.Fills width address → m.memory.Permits .write address)
    (segment : Word) (repetition : Repetition) :
    ∃ last, (elements .stos width segment repetition m.registers.cx.toNat).run m = (.ok (), last)
      ∧ Filled m width m.registers.cx.toNat last := by
  refine exists_run_elements (fun i now _ => Filled m width i now)
    (fun i now _ hi h => h.next hbuilt hunaliased hwritable hi segment) (fun i now _ _ _ _ => ?_)
    [] (Filled.start m width) (.inl (Nat.zero_add _).symm)
  exact isOver_of_compares_eq_false rfl repetition now.registers

end StringOperation

namespace Machine

variable {m : Machine} {head : Head} {width : Width} {repetition : Repetition}

/-- A repeated store moves the destination index by as many elements as are counted, down to a
counter of zero, and changes no other register. At the offset of byte `j` of any of the elements,
there is byte `j` of the accumulator; no other byte of any region changes. The offsets may wrap
around the end of the segment, and meet. -/
theorem step_repeated_fill (hbuilt : m.memory.Built) (hunaliased : m.memory.Unaliased)
    (hrepeats : m.Repeats head .stos width repetition)
    (hwritable : ∀ address, m.Fills width address → m.memory.Permits .write address) :
    m.step = (.continued, ⟨{ m.registers with
        ip := m.registers.ip + BitVec.ofNat 16 head.length
        cx := 0
        di := m.registers.di + m.registers.cx * stride width m.registers }, m.step.2.memory⟩)
      ∧ (∀ i j, i < m.registers.cx.toNat → j < width.size.toNat →
        m.step.2.memory.byte? (FarPointer.mk m.registers.es (m.registers.di
            + BitVec.ofNat 16 i * stride width m.registers + BitVec.ofNat 16 j)).linear
          = (Word.toBytes m.registers.ax)[j]?)
      ∧ (∀ address, ¬ m.Fills width address →
        m.step.2.memory.byte? address = m.memory.byte? address)
      ∧ m.memory.SameOutside (m.memory.Behind (m.Fills width)) m.step.2.memory := by
  obtain ⟨last, hrun, hfilled⟩ := exists_run_fill (m := m.past head.length) hbuilt hunaliased
    hwritable (m.sourceSegment head) repetition
  have hregisters : last.registers
      = registersAfter .stos width (m.past head.length).registers m.registers.cx.toNat :=
    hfilled.registers
  have hlast : last = ⟨last.registers, last.memory⟩ := rfl
  rw [hrepeats.step_eq hrun]
  refine ⟨?_, hfilled.bytes, fun address hother => ?_, hfilled.outside⟩
  · rw [hlast, hregisters, registersAfter, BitVec.ofNat_toNat, BitVec.setWidth_eq]
    show (_, Machine.mk { m.registers with
      ip := m.registers.ip + BitVec.ofNat 16 head.length
      cx := m.registers.cx - m.registers.cx
      di := _ } _) = _
    rw [BitVec.sub_self]
    rfl
  · exact hfilled.outside.byte?_eq hunaliased hother

/-- Two words are to be stored downward from an odd offset. -/
def filling : Machine :=
  ⟨{ Registers.initial with ax := 0x1234, cx := 2, di := 0x101, flags := 0x0402 },
    .onePage [0xf3, 0xab]⟩

theorem step_repeated_fill_filling :
    filling.step.1 = .continued ∧ filling.step.2.registers.di = 0xfd
      ∧ filling.step.2.memory.byte? 0xff = some 0x34
      ∧ filling.step.2.memory.byte? 0x102 = some 0x12 := by
  let head : Head := ⟨[0xf3], 0xab, none, by decide, by decide, rfl, rfl⟩
  have hfaces : filling.Faces head.bytes := faces_onePage [] rfl rfl (by decide)
  have hwithin : ∀ i, i < 2 → ∀ j, j < 2 →
      ((filling.destinationOf .word i).advance (BitVec.ofNat 16 j)).linear < pageSize := by
    decide
  have hrepeats : filling.Repeats head .stos .word .whileEqual := ⟨hfaces, rfl, rfl⟩
  have hwritable : ∀ address, filling.Fills .word address →
      filling.memory.Permits .write address := by
    rintro address ⟨i, hi, j, hj, rfl⟩
    exact PagedMemory.permits_onePage _ _ (hwithin i hi j hj)
  obtain ⟨hstep, hbytes, -⟩ := step_repeated_fill (m := filling) (PagedMemory.built_onePage _)
    (PagedMemory.unaliased_onePage _) hrepeats hwritable
  exact ⟨congrArg Prod.fst hstep, congrArg (·.2.registers.di) hstep,
    hbytes 1 0 (by decide) (by decide), hbytes 0 1 (by decide) (by decide)⟩

end Machine

end CmStream
