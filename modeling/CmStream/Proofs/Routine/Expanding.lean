import CmStream.Proofs.Routine.Returning
import CmStream.Proofs.Routine.Streams

/-!
# Expanding runs

The routine that expands pairs of a count and a byte goes round once for each pair. A round saves
the counter of the pairs on the stack, fills the output with the byte and gets the counter back;
what holds between two rounds is one invariant, so that a block of any number of pairs is followed
by induction on the pairs that are left. No pair at all is skipped, and so is a count of zero.
-/

namespace CmStream

open Sandbox

/-! ## Runs -/

namespace Run

/-- The sum of the counts of some runs. -/
def total : List Run → Nat
  | [] => 0
  | run :: runs => run.1.toNat + total runs

theorem total_append (runs more : List Run) : total (runs ++ more) = total runs + total more := by
  induction runs with
  | nil => simp [total]
  | cons run runs ih => simp [total, ih, Nat.add_assoc]

@[simp] theorem length_flatMap_expand (runs : List Run) :
    (runs.flatMap expand).length = total runs := by
  induction runs with
  | nil => rfl
  | cons run runs ih => simp [total, expand, ih]

@[simp] theorem length_flatMap_encode (runs : List Run) :
    (runs.flatMap encode).length = 2 * runs.length := by
  induction runs with
  | nil => rfl
  | cons run runs ih =>
    simp [encode, ih]
    omega

end Run

/-! ## Words that memory holds -/

namespace Microprogram

variable {m : Machine} {place : FarPointer} {index offset : Nat} {value : Word}

theorem run_loadWord_holds (hlaid : LaidOut m.memory)
    (hholds : m.memory.Holds index offset (Word.toBytes value))
    (hplace : place.linear = index * segmentSize + offset)
    (hnext : (place.advance 1).linear = index * segmentSize + (offset + 1)) (hindex : index < 3)
    (hoffset : offset + 1 < segmentSize) : (loadWord place).run m = (.ok value, m) := by
  have hfirst : m.memory.byteAt ⟨index, offset⟩ = Word.low value := hholds 0 Nat.zero_lt_two
  have hsecond : m.memory.byteAt ⟨index, offset + 1⟩ = Word.high value := hholds 1 Nat.one_lt_two
  rw [run_loadWord_laidOut hlaid hplace hnext hindex hoffset, hfirst, hsecond,
    Word.ofBytes_low_high]

end Microprogram

/-! ## The string operations -/

namespace StringOperation

open Microprogram

variable {m : Machine}

/-- Repeated into the third region, storing fills as many bytes as the counter says. -/
theorem run_elements_stos {b count : Nat} {value : Byte} (segment : Word)
    (repetition : Repetition) (hlaid : LaidOut m.memory)
    (hes : m.registers.es = segmentAt (regionBase outputRegion))
    (hdi : m.registers.di = BitVec.ofNat 16 b) (hup : m.registers.flag .direction = false)
    (hvalue : m.registers.get .byte 0 = value) (htarget : b + count ≤ segmentSize) :
    (elements .stos .byte segment repetition count).run m
      = (.ok (), ⟨{ m.registers with
          cx := m.registers.cx - BitVec.ofNat 16 count
          di := BitVec.ofNat 16 (b + count) },
        m.memory.poke outputRegion b (List.replicate count value)⟩) := by
  induction count generalizing m b with
  | zero =>
    rw [List.replicate_zero, PagedMemory.poke_nil, Nat.add_zero, ← hdi, BitVec.sub_zero]
    rfl
  | succ count ih =>
    have hstore : (storeByte ⟨m.registers.es, m.registers.di⟩ (m.registers.get .byte 0)).run m
        = (.ok (), { m with memory := m.memory.setByteAt ⟨outputRegion, b⟩ value }) := by
      rw [hvalue, hes, hdi]
      exact run_storeByte_laidOut hlaid value (linear_segment (by decide) (by omega)) (by decide)
        (by omega)
    have helement : (element .stos .byte segment).run m
        = (.ok (), ⟨{ m.registers with di := m.registers.di + 1 },
          m.memory.setByteAt ⟨outputRegion, b⟩ value⟩) := by
      unfold element handle
      rw [run_bind_of_ok _ (run_bind_of_ok _ run_registers |>.trans hstore), run_modifyRegisters]
      unfold advance stride
      dsimp only
      rw [hup]
      rfl
    have hstored : LaidOut (m.memory.setByteAt ⟨outputRegion, b⟩ value) :=
      hlaid.of_sameShape (PagedMemory.sameShape_setByteAt _ _ _)
    have hdi' : m.registers.di + 1 = BitVec.ofNat 16 (b + 1) := by
      rw [hdi, BitVec.ofNat_add]
      rfl
    have hrest := ih (m := ⟨{ m.registers with
        cx := m.registers.cx - 1, di := m.registers.di + 1 },
      m.memory.setByteAt ⟨outputRegion, b⟩ value⟩) hstored hes hdi' hup hvalue (by omega)
    have hcounter : m.registers.cx - 1 - BitVec.ofNat 16 count
        = m.registers.cx - BitVec.ofNat 16 (count + 1) := by
      rw [BitVec.sub_sub, Nat.add_comm count, BitVec.ofNat_add]
      rfl
    unfold elements
    rw [run_bind_of_ok _ helement, run_bind_of_ok _ (run_modifyRegisters _),
      run_bind_of_ok _ run_registers, List.replicate_succ, PagedMemory.poke_cons, ← hcounter,
      ← Nat.add_assoc, Nat.add_right_comm b]
    exact hrest

/-- A word is loaded from the second region, and the source index moves on behind it. -/
theorem run_element_lods {a : Nat} {value : Word} (hlaid : LaidOut m.memory)
    (hsi : m.registers.si = BitVec.ofNat 16 a) (hup : m.registers.flag .direction = false)
    (ha : a + 1 < segmentSize) (hholds : m.memory.Holds inputRegion a (Word.toBytes value)) :
    (element .lods .word (segmentAt (regionBase inputRegion))).run m
      = (.ok (), m.withRegisters { m.registers with
          ax := value, si := m.registers.si + 2 }) := by
  have hnext : m.registers.si + 1 = BitVec.ofNat 16 (a + 1) := by
    rw [hsi, BitVec.ofNat_add]
    rfl
  have hload : (loadWord ⟨segmentAt (regionBase inputRegion), m.registers.si⟩).run m
      = (.ok value, m) := by
    apply run_loadWord_holds hlaid hholds _ _ (by decide) ha
    · rw [hsi, linear_segment (by decide) (by omega)]
    · rw [FarPointer.advance, hnext, linear_segment (by decide) ha]
  unfold element handle
  rw [run_bind_of_ok _ (run_bind_of_ok _ run_registers |>.trans (run_bind_of_ok _ hload)),
    run_modifyRegisters]
  have hdirection : ((m.registers.set .word 0 value).flag .direction) = false := hup
  unfold advance stride
  dsimp only
  rw [hdirection]
  rfl

end StringOperation

/-! ## One round -/

namespace Routine

open Machine

/-- Where the counter of the pairs lies while a pair is expanded: just below the return address. -/
def savedSlot : Word := returnSlot - 2

/-- A machine between two rounds, at a byte of the routine: some runs have been expanded, and
others are left. -/
structure Between (k : Nat) (done left : List Run) (m : Machine) : Prop where
  place : At expandRuns k m
  ds : m.registers.ds = segmentAt (regionBase inputRegion)
  es : m.registers.es = segmentAt (regionBase outputRegion)
  stack : m.registers.stackPointer = ⟨0, returnSlot⟩
  up : m.registers.flag .direction = false
  cx : m.registers.cx = BitVec.ofNat 16 left.length
  si : m.registers.si = BitVec.ofNat 16 (BlockHeader.length + 2 * done.length)
  di : m.registers.di = BitVec.ofNat 16 (Run.total done)
  input : m.memory.Holds inputRegion (BlockHeader.length + 2 * done.length)
    (left.flatMap Run.encode)
  output : m.memory.Holds outputRegion 0 (done.flatMap Run.expand)
  returns : m.memory.Holds codeRegion returnSlot.toNat returnAddress
  short : BlockHeader.length + 2 * (done.length + left.length) < segmentSize
  small : Run.total done + Run.total left < segmentSize

variable {m : Machine} {k : Nat} {done left : List Run} {count value : Byte}

/-- The flags behind a byte that has come to zero. -/
@[irreducible] def clearedFlags (flags : Word) : Word := (Arithmetic.bitwise (0 : Byte) flags).flags

/-! ### The machines of a round -/

/-- The machine that has saved the counter. -/
def saved (m : Machine) : Machine :=
  ⟨{ m.registers with ip := m.registers.ip + 3, sp := m.registers.sp - 2 },
    m.memory.poke codeRegion savedSlot.toNat (Word.toBytes m.registers.cx)⟩

/-- The machine that has loaded a pair. -/
def loaded (count value : Byte) (m : Machine) : Machine :=
  ⟨{ m.registers with
      ip := m.registers.ip + 4
      sp := m.registers.sp - 2
      ax := Word.ofBytes count value
      si := m.registers.si + 2 },
    m.memory.poke codeRegion savedSlot.toNat (Word.toBytes m.registers.cx)⟩

/-- The machine in front of the repeated instruction: the counter of the pairs has been saved, the
count is the new counter, and the byte is in the accumulator. -/
def fetched (count value : Byte) (m : Machine) : Machine :=
  ⟨{ m.registers with
      ip := m.registers.ip + 10
      sp := m.registers.sp - 2
      ax := Word.ofBytes value value
      cx := BitVec.ofNat 16 count.toNat
      si := m.registers.si + 2
      flags := clearedFlags m.registers.flags },
    m.memory.poke codeRegion savedSlot.toNat (Word.toBytes m.registers.cx)⟩

/-- The machine behind the repeated instruction. -/
def filled (count value : Byte) (done : List Run) (m : Machine) : Machine :=
  ⟨{ (fetched count value m).registers with
      ip := m.registers.ip + 12
      cx := 0
      di := BitVec.ofNat 16 (Run.total done + count.toNat) },
    (fetched count value m).memory.poke outputRegion (Run.total done)
      (List.replicate count.toNat value)⟩

/-- The machine that has got the counter back from the stack. -/
def restored (count value : Byte) (done : List Run) (m : Machine) : Machine :=
  ⟨{ (filled count value done m).registers with
      ip := m.registers.ip + 13
      sp := m.registers.sp
      cx := m.registers.cx }, (filled count value done m).memory⟩

/-- The machine after a round, moved on by some bytes: everything on the stack is as it was. -/
def rounded (count value : Byte) (done : List Run) (distance : Nat) (m : Machine) : Machine :=
  ⟨{ (filled count value done m).registers with
      ip := m.registers.ip + BitVec.ofNat 16 distance
      sp := m.registers.sp
      cx := m.registers.cx - 1 }, (filled count value done m).memory⟩

/-! ### What a round relies on -/

theorem ofBytes_zero (byte : Byte) : Word.ofBytes byte 0 = BitVec.ofNat 16 byte.toNat := by
  apply BitVec.eq_of_toNat_eq
  rw [Word.toNat_ofBytes, Word.toNat_ofNat_of_lt (by omega)]
  simp

theorem direction_clearedFlags (flags : Word) :
    Flags.get (clearedFlags flags) .direction = Flags.get flags .direction := by
  simp [clearedFlags, Arithmetic.bitwise, Flags.describe, Flags.get_set]

theorem ofNat_ne_zero {n : Nat} (hpositive : 0 < n) (hsmall : n < 0x10000) :
    BitVec.ofNat 16 n ≠ 0 := by
  intro hzero
  have hcount := congrArg BitVec.toNat hzero
  rw [Word.toNat_ofNat_of_lt hsmall] at hcount
  exact absurd hcount (Nat.ne_of_gt hpositive)

/-- As long as pairs are left, their counter is not zero. -/
theorem Between.cx_ne_zero {run : Run} (h : Between k done (run :: left) m) :
    m.registers.cx ≠ 0 := by
  have hshort := h.short
  simp only [List.length_cons, BlockHeader.length, segmentSize] at hshort
  rw [h.cx]
  exact ofNat_ne_zero (by simp) (by simp; omega)

/-- The counter goes to the stack. -/
theorem Between.run_saveCounter (h : Between k done left m) (r : Registers) :
    (Microprogram.storeWord ⟨m.registers.ss, m.registers.sp - 2⟩ m.registers.cx).run ⟨r, m.memory⟩
      = (.ok (), ⟨r, m.memory.poke codeRegion savedSlot.toNat (Word.toBytes m.registers.cx)⟩) := by
  obtain ⟨hss, hsp⟩ := FarPointer.mk.inj h.stack
  rw [hss, hsp]
  exact Microprogram.run_storeWord_laidOut (m := ⟨r, m.memory⟩) h.place.loaded.laidOut _
    (by decide) (by decide) (by decide) (by decide)

/-- What is saved lies below the return address and the routine. -/
theorem loaded_saved (h : Loaded expandRuns m.memory) (word : Word) :
    Loaded expandRuns (m.memory.poke codeRegion savedSlot.toNat (Word.toBytes word)) :=
  h.poke fun _ => ⟨by decide, by show savedSlot.toNat + 2 ≤ stackReserve; decide⟩

/-! ### The single steps of a round -/

section Steps

variable {code : List Byte}

/-- The instruction pointer behind two bytes. -/
theorem skip_skip (m : Machine) : (m.skip 1).skip 1 = m.skip 2 := by
  simp [skip, BitVec.add_assoc]

theorem step_moveCount (hface : m.Faces (0x88 :: 0xc1 :: code)) :
    m.step = (.continued, m.withRegisters { m.registers with
      ip := m.registers.ip + 2
      cx := Word.ofBytes (Word.low m.registers.ax) (Word.high m.registers.cx) }) := by
  have hstep := step_move hface rfl rfl
  rw [skip_skip] at hstep
  exact hstep

/-- A register that is combined with itself comes to zero. -/
theorem step_clearUpper (hface : m.Faces (0x30 :: 0xed :: code)) :
    m.step = (.continued, m.withRegisters { m.registers with
      ip := m.registers.ip + 2
      cx := Word.ofBytes (Word.low m.registers.cx) 0
      flags := clearedFlags m.registers.flags }) := by
  have hself : Word.high m.registers.cx ^^^ Word.high m.registers.cx = 0 := BitVec.xor_self
  have hstep := step_arithmetic hface rfl rfl rfl
  rw [skip_skip] at hstep
  rw [clearedFlags, ← hself]
  exact hstep

theorem step_moveByte (hface : m.Faces (0x88 :: 0xe0 :: code)) :
    m.step = (.continued, m.withRegisters { m.registers with
      ip := m.registers.ip + 2
      ax := Word.ofBytes (Word.high m.registers.ax) (Word.high m.registers.ax) }) := by
  have hstep := step_move hface rfl rfl
  rw [skip_skip] at hstep
  exact hstep

/-- Three steps make the count the counter and the byte both halves of the accumulator. -/
theorem reaches_spread
    (hface : m.Faces (0x88 :: 0xc1 :: 0x30 :: 0xed :: 0x88 :: 0xe0 :: code))
    (hax : m.registers.ax = Word.ofBytes count value) :
    m.Reaches 3 (m.withRegisters { m.registers with
      ip := m.registers.ip + 6
      ax := Word.ofBytes value value
      cx := Word.ofBytes count 0
      flags := clearedFlags m.registers.flags }) := by
  have hbehind : (m.skip 2).Faces (0x30 :: 0xed :: 0x88 :: 0xe0 :: code) := by
    rw [← skip_skip]
    exact hface.tail.tail
  have hlast : ((m.skip 2).skip 2).Faces (0x88 :: 0xe0 :: code) := by
    rw [← skip_skip (m.skip 2)]
    exact hbehind.tail.tail
  have hpath := ((Reaches.single (step_moveCount hface)).trans
    (Reaches.single (step_clearUpper (hbehind.of_eq rfl rfl)))).trans
    (Reaches.single (step_moveByte (hlast.of_eq rfl rfl)))
  simp only [withRegisters, hax, Word.low_ofBytes, Word.high_ofBytes, BitVec.add_assoc,
    BitVec.reduceAdd] at hpath
  exact hpath

end Steps

/-! ### A round -/

theorem at_saved (h : At expandRuns 3 m) : At expandRuns (3 + 3) (saved m) :=
  h.move (loaded_saved h.loaded _) rfl rfl

theorem at_loaded (h : At expandRuns 3 m) : At expandRuns (3 + 4) (loaded count value m) :=
  h.move (loaded_saved h.loaded _) rfl rfl

/-- Two steps find that there is a pair, and save the counter. -/
theorem reaches_saved {run : Run} (h : Between 3 done (run :: left) m) :
    m.Reaches 2 (saved m) := by
  have hface : m.Faces (0xe3 :: 0x0d :: 0x51 :: expandRuns.drop 6) := h.place.faces
  have henter := step_jumpIfCounterZero_of_ne hface rfl h.cx_ne_zero
  have hsave := step_pushRegister hface.tail.tail rfl h.run_saveCounter
  have hpath := (Reaches.single henter).trans (Reaches.single hsave)
  simp only [skip, BitVec.add_assoc, BitVec.reduceAdd] at hpath
  exact hpath

/-- One step loads a pair. -/
theorem reaches_loaded (h : Between 3 done ((count, value) :: left) m) :
    (saved m).Reaches 1 (loaded count value m) := by
  have hplace := at_saved h.place
  have hface : (saved m).Faces (0xad :: expandRuns.drop 7) := hplace.faces
  have hpair : (saved m).memory.Holds inputRegion (BlockHeader.length + 2 * done.length)
      (Word.toBytes (Word.ofBytes count value)) := by
    have hpairs := h.input
    rw [List.flatMap_cons] at hpairs
    rw [Word.toBytes_ofBytes]
    exact (PagedMemory.holds_append_iff.mp hpairs).1.poke fun hregion => by contradiction
  have hshort := h.short
  rw [List.length_cons] at hshort
  have hds : (saved m).registers.ds = segmentAt (regionBase inputRegion) := h.ds
  have helement := StringOperation.run_element_lods (m := (saved m).skip 1) hplace.loaded.laidOut
    h.si h.up (by omega) hpair
  rw [← hds] at helement
  have hpath := Reaches.single (step_string hface rfl helement)
  simp only [saved, skip, withRegisters, BitVec.add_assoc, BitVec.reduceAdd] at hpath
  exact hpath

/-- Six steps fetch a pair and save the counter. -/
theorem reaches_fetched (h : Between 3 done ((count, value) :: left) m) :
    m.Reaches 6 (fetched count value m) := by
  have hface : (loaded count value m).Faces
      (0x88 :: 0xc1 :: 0x30 :: 0xed :: 0x88 :: 0xe0 :: expandRuns.drop 13) :=
    (at_loaded h.place).faces
  have hpath := ((reaches_saved h).trans (reaches_loaded h)).trans (reaches_spread hface rfl)
  simp only [loaded, withRegisters, ofBytes_zero, BitVec.add_assoc, BitVec.reduceAdd] at hpath
  exact hpath

theorem loaded_fetched (h : Loaded expandRuns m.memory) :
    Loaded expandRuns (fetched count value m).memory := loaded_saved h _

theorem loaded_filled (h : Loaded expandRuns m.memory) :
    Loaded expandRuns (filled count value done m).memory :=
  (loaded_fetched h).poke fun hregion => by contradiction

/-- One step fills the output. -/
theorem reaches_filled (h : Between 3 done ((count, value) :: left) m) :
    (fetched count value m).Reaches 1 (filled count value done m) := by
  have hsmall := h.small
  simp only [Run.total] at hsmall
  have hloaded : Loaded expandRuns (fetched count value m).memory := loaded_fetched h.place.loaded
  have hplace : At expandRuns (3 + 10) (fetched count value m) := h.place.move hloaded rfl rfl
  have hface : (fetched count value m).Faces (0xf3 :: 0xaa :: expandRuns.drop 15) := hplace.faces
  have hcount : (fetched count value m).registers.cx.toNat = count.toNat :=
    Word.toNat_ofNat_of_lt (by omega)
  have hvalue : (fetched count value m).registers.get .byte 0 = value := Word.low_ofBytes _ _
  have hup : (fetched count value m).registers.flag .direction = false :=
    (direction_clearedFlags m.registers.flags).trans h.up
  have helements := StringOperation.run_elements_stos (m := ((fetched count value m).skip 1).skip 1)
    (fetched count value m).registers.ds .whileEqual hloaded.laidOut h.es h.di hup hvalue
    (Nat.le_of_lt (by omega : Run.total done + count.toNat < segmentSize))
  have hpath := Reaches.single (step_repeat hface rfl rfl (by rw [hcount]; exact helements))
  simp only [skip, fetched, BitVec.sub_self, BitVec.add_assoc, BitVec.reduceAdd] at hpath
  exact hpath

/-- Between filling the output and the next round, the counter is still where it was put. -/
theorem run_loadCounter (h : Between k done left m) (r : Registers) :
    (Microprogram.loadWord (filled count value done m).registers.stackPointer).run
        ⟨r, (filled count value done m).memory⟩
      = (.ok m.registers.cx, ⟨r, (filled count value done m).memory⟩) := by
  obtain ⟨hss, hsp⟩ := FarPointer.mk.inj h.stack
  have hpointer : (filled count value done m).registers.stackPointer = ⟨0, returnSlot - 2⟩ := by
    show FarPointer.mk m.registers.ss (m.registers.sp - 2) = _
    rw [hss, hsp]
  -- The output is in another region than the stack.
  have hsaved : (filled count value done m).memory.Holds codeRegion savedSlot.toNat
      (Word.toBytes m.registers.cx) := by
    refine PagedMemory.Holds.poke (PagedMemory.holds_poke ?_) fun hregion => by contradiction
    rw [h.place.loaded.laidOut.length codeRegion (by decide)]
    show savedSlot.toNat + 2 ≤ segmentSize
    decide
  rw [hpointer]
  exact Microprogram.run_loadWord_holds (m := ⟨r, _⟩) (loaded_filled h.place.loaded).laidOut hsaved
    (by decide) (by decide) (by decide) (by decide)

/-- One step gets the counter back. -/
theorem reaches_restored (h : Between 3 done ((count, value) :: left) m) :
    (filled count value done m).Reaches 1 (restored count value done m) := by
  have hplace : At expandRuns (3 + 12) (filled count value done m) :=
    h.place.move (loaded_filled h.place.loaded) rfl rfl
  have hface : (filled count value done m).Faces (0x59 :: 0xe2 :: 0xf1 :: success) := hplace.faces
  have hpath := Reaches.single (step_popRegister hface rfl (run_loadCounter h))
  simp only [filled, fetched, skip, withRegisters, Registers.setWord, BitVec.sub_add_cancel,
    BitVec.add_assoc, BitVec.reduceAdd] at hpath
  exact hpath

/-- The last step counts the pair: on to the next one, or behind the loop. -/
theorem reaches_rounded (h : Between 3 done ((count, value) :: left) m) :
    (restored count value done m).Reaches 1
      (rounded count value done (if left = [] then 15 else 0) m) := by
  have hplace : At expandRuns (3 + 13) (restored count value done m) :=
    h.place.move (loaded_filled h.place.loaded) rfl rfl
  have hface : (restored count value done m).Faces (0xe2 :: 0xf1 :: success) := hplace.faces
  have hcx : (restored count value done m).registers.cx - 1 = BitVec.ofNat 16 left.length := by
    show m.registers.cx - 1 = _
    rw [h.cx, List.length_cons, BitVec.ofNat_add]
    exact BitVec.add_sub_cancel _ _
  cases left with
  | nil =>
    have hpath := Reaches.single (step_loop_of_eq hface rfl hcx)
    simp only [restored, skip, withRegisters, BitVec.add_assoc, BitVec.reduceAdd] at hpath
    exact hpath
  | cons run left =>
    have hmore : (restored count value done m).registers.cx - 1 ≠ 0 := by
      have hshort := h.short
      simp only [List.length_cons, BlockHeader.length, segmentSize] at hshort
      rw [hcx]
      exact ofNat_ne_zero (by simp) (by simp; omega)
    -- The distance is that from behind the instruction to the front of the loop.
    have hback : (13 : Word) + (1 + (1 + (0xf1 : Byte).signExtend 16)) = BitVec.ofNat 16 0 := by
      decide
    have hpath := Reaches.single (step_loop_of_ne hface rfl hmore)
    simp only [restored, skip, withRegisters, BitVec.add_assoc, hback] at hpath
    exact hpath

/-- A round expands the first of the runs that are left. -/
theorem between_rounded (h : Between 3 done ((count, value) :: left) m) :
    Between (if left = [] then 18 else 3) (done ++ [(count, value)]) left
      (rounded count value done (if left = [] then 15 else 0) m) := by
  have hpair := h.input
  have hshort := h.short
  have hsmall := h.small
  rw [List.flatMap_cons, PagedMemory.holds_append_iff] at hpair
  simp only [List.length_cons] at hshort
  simp only [Run.total] at hsmall
  have hloaded : Loaded expandRuns (filled count value done m).memory :=
    loaded_filled h.place.loaded
  have hplace : ∀ j, At expandRuns (3 + j) (rounded count value done j m) :=
    fun j => h.place.move hloaded rfl rfl
  have htotal : Run.total (done ++ [(count, value)]) = Run.total done + count.toNat := by
    simp [Run.total_append, Run.total]
  have hlength : (done ++ [(count, value)]).length = done.length + 1 := by
    simp
  have hbehind : BlockHeader.length + 2 * (done ++ [(count, value)]).length
      = BlockHeader.length + 2 * done.length + 2 := by
    rw [hlength]
    omega
  constructor
  case place =>
    split
    · exact hplace 15
    · exact hplace 0
  case ds => exact h.ds
  case es => exact h.es
  case stack => exact h.stack
  case up => exact (direction_clearedFlags m.registers.flags).trans h.up
  case cx =>
    show m.registers.cx - 1 = _
    rw [h.cx, List.length_cons, BitVec.ofNat_add]
    exact BitVec.add_sub_cancel _ _
  case si =>
    show m.registers.si + 2 = _
    rw [h.si, hbehind, BitVec.ofNat_add _ 2]
    rfl
  case di =>
    rw [htotal]
    rfl
  case input =>
    rw [hbehind]
    exact (hpair.2.poke fun hregion => by contradiction).poke fun hregion => by contradiction
  case output =>
    -- What has been expanded before lies in front of the run that has been stored.
    have hexpanded : [(count, value)].flatMap Run.expand = List.replicate count.toNat value := by
      simp [Run.expand]
    rw [List.flatMap_append, PagedMemory.holds_append_iff, Run.length_flatMap_expand, hexpanded,
      Nat.zero_add]
    refine ⟨(h.output.poke fun hregion => by contradiction).poke fun _ => .inl ?_,
      PagedMemory.holds_poke ?_⟩
    · exact Nat.le_of_eq (by rw [Run.length_flatMap_expand, Nat.zero_add])
    · rw [(loaded_fetched h.place.loaded).laidOut.length outputRegion (by decide),
        List.length_replicate]
      omega
  case returns =>
    refine (h.returns.poke fun _ => .inr ?_).poke fun hregion => by contradiction
    show savedSlot.toNat + 2 ≤ returnSlot.toNat
    decide
  case short =>
    rw [hlength]
    omega
  case small =>
    rw [htotal]
    omega

/-! ## All rounds -/

/-- However many pairs are left, all of them are expanded in nine steps each; where none is left,
one step jumps over the loop. The induction is on the pairs that are left. -/
theorem exists_reaches_expanded (h : Between 3 done left m) :
    ∃ n m', n ≤ 9 * left.length + 1 ∧ m.Reaches n m' ∧ Between 18 (done ++ left) [] m' := by
  induction left generalizing done m with
  | nil =>
    have hface : m.Faces (0xe3 :: 0x0d :: expandRuns.drop 5) := h.place.faces
    let skipped := ((m.skip 1).skip 1).skip ((0x0d : Byte).signExtend 16)
    have hstep : m.step = (.continued, skipped) := step_jumpIfCounterZero_of_eq hface rfl h.cx
    have hip : m.registers.ip + 1 + 1 + (0x0d : Byte).signExtend 16
        = m.registers.ip + BitVec.ofNat 16 15 := by
      simp only [BitVec.add_assoc]
      rfl
    have hplace : At expandRuns (3 + 15) skipped := h.place.move h.place.loaded rfl hip
    rw [List.append_nil]
    exact ⟨1, skipped, Nat.le_refl 1, Reaches.single hstep, hplace, h.ds, h.es, h.stack, h.up, h.cx,
      h.si, h.di, h.input, h.output, h.returns, h.short, h.small⟩
  | cons run left ih =>
    obtain ⟨count, value⟩ := run
    have hround := (((reaches_fetched h).trans (reaches_filled h)).trans
      (reaches_restored h)).trans (reaches_rounded h)
    have hbetween := between_rounded h
    rw [List.append_cons, List.length_cons]
    cases left with
    | nil =>
      rw [List.append_nil]
      exact ⟨9, _, by omega, hround, hbetween⟩
    | cons next left =>
      obtain ⟨n, m', hn, hrest, hlast⟩ := ih hbetween
      exact ⟨9 + n, m', by omega, hround.trans hrest, hlast⟩

/-! ## Single blocks -/

/-- The block of some runs at a place in a stream. -/
def runsBlockAt (offset : Nat) (runs : List Run) : Block :=
  ⟨offset, (runsBlock runs).1, (runsBlock runs).2⟩

/-- The header of that block: its control word is the number of runs. -/
def runsHeader (runs : List Run) : BlockHeader := ⟨0, BitVec.ofNat 16 runs.length⟩

variable {s : Sandbox} {runs : List Run} {limit : Option Nat}

/-- Two steps lead from the first instruction to the loop, with all runs left. -/
theorem exists_reaches_between (offset : Nat) (h : Ready expandRuns s)
    (hshort : BlockHeader.length + 2 * runs.length < segmentSize)
    (hsmall : Run.total runs < segmentSize) :
    ∃ m, (s.entered (runsBlockAt offset runs) (runsHeader runs)).Reaches 2 m
      ∧ Between 3 [] runs m := by
  let first := s.entered (runsBlockAt offset runs) (runsHeader runs)
  have hstart : At expandRuns 0 first := at_entered h
  have hface : first.Faces (0x89 :: 0xc1 :: 0xfc :: expandRuns.drop 3) := hstart.faces
  let moved := first.withRegisters
    { first.registers with ip := first.registers.ip + 1 + 1, cx := first.registers.ax }
  let cleared := moved.withRegisters
    (Registers.setFlag { moved.registers with ip := moved.registers.ip + 1 } .direction false)
  have hmove : first.step = (.continued, moved) := step_move hface rfl rfl
  have hclear : moved.step = (.continued, cleared) := step_setFlag hface.tail.tail rfl
  have hip : cleared.registers.ip = first.registers.ip + BitVec.ofNat 16 3 := by
    show first.registers.ip + 1 + 1 + 1 = _
    simp only [BitVec.add_assoc]
    rfl
  have hplace : At expandRuns (0 + 3) cleared := hstart.move hstart.loaded rfl hip
  have hinput : first.memory.Holds inputRegion BlockHeader.length (runs.flatMap Run.encode) := by
    intro i hi
    show (s.entered (runsBlockAt offset runs) (runsHeader runs)).memory.byteAt _ = _
    refine byteAt_entered_payloadOf rfl h.loaded.laidOut ?_ hi
    rw [Run.length_flatMap_encode]
    exact hshort
  have hreturns : cleared.memory.Holds codeRegion returnSlot.toNat returnAddress := by
    refine PagedMemory.holds_poke ?_
    have hpoked := h.loaded.laidOut.of_sameShape (PagedMemory.sameShape_poke _ inputRegion 0
      (runsBlockAt offset runs).payload)
    rw [hpoked.length codeRegion (by decide)]
    decide
  refine ⟨cleared, (Reaches.single hmove).trans (Reaches.single hclear), hplace, rfl, rfl, rfl,
    flag_setFlag _ _ _, rfl, rfl, rfl, hinput, fun i hi => ?_, hreturns, ?_, ?_⟩
  · contradiction
  · simpa using hshort
  · simpa [Run.total] using hsmall

/-- The routine expands the runs of a block and is ready for the next one. -/
theorem turns_expandRuns (hshort : runs.length ≤ 32764) (hsmall : Run.total runs ≤ 65535)
    (hlimit : ∀ n, limit = some n → 9 * runs.length + 6 ≤ n) :
    Turns expandRuns limit (runsBlock runs) (runs.flatMap Run.expand) := by
  intro s offset h
  have hroom : BlockHeader.length + 2 * runs.length < segmentSize := by
    simp only [BlockHeader.length, segmentSize]
    omega
  have hfill : Run.total runs < segmentSize := by
    simp only [segmentSize]
    omega
  obtain ⟨m₁, hstart, hbetween₁⟩ := exists_reaches_between offset h hroom hfill
  obtain ⟨n, m₂, hn, hrounds, hbetween₂⟩ := exists_reaches_expanded hbetween₁
  rw [List.nil_append] at hbetween₂
  have hreturn : ∀ i, i < 4 → m₂.memory.byteAt ⟨codeRegion, returnSlot.toNat + i⟩ = 0 := by
    intro i hi
    have hzero : ∀ j : Fin 4, returnAddress[j] = 0 := by decide
    exact (hbetween₂.returns i hi).trans (hzero ⟨i, hi⟩)
  have hlast : At (expandRuns.take 18 ++ success) (expandRuns.take 18).length m₂ := hbetween₂.place
  obtain ⟨foot, last, hfoot, hhalt, hmemory, hplace, hcarry, hsi, hdi⟩ :=
    reaches_foot hlast hbetween₂.stack hreturn
  have hpath := (hstart.trans hrounds).trans hfoot
  have hruns : Runs limit s (runsBlockAt offset runs) (.ok (2 + n + 2 + 1)) ⟨last, s.entry⟩ := by
    refine ⟨⟨runsHeader runs, ⟨runs.flatMap Run.encode, rfl⟩, hpath.ends hhalt ?_⟩, rfl⟩
    intro granted hgranted
    have hgiven := hlimit granted hgranted
    omega
  have hlength : (BitVec.ofNat 16 (runs.flatMap Run.expand).length).toNat
      = (runs.flatMap Run.expand).length := by
    apply Word.toNat_ofNat_of_lt
    rw [Run.length_flatMap_expand]
    omega
  refine ⟨⟨last, s.entry⟩, ⟨_, hruns, ⟨⟨_, rfl⟩, hplace⟩, hcarry, .inl ?_, ?_⟩, ⟨?_, h.entry⟩, ?_⟩
  · show last.registers.si.toNat = (Block.payloadOf _ _).length
    rw [hsi, hbetween₂.si, length_payloadOf, Run.length_flatMap_encode]
    exact Word.toNat_ofNat_of_lt hroom
  · show last.registers.di = BitVec.ofNat 16 (runs.flatMap Run.expand).length
    rw [hdi, hbetween₂.di, Run.length_flatMap_expand]
  · show Loaded expandRuns last.memory
    rw [hmemory]
    exact hbetween₂.place.loaded
  · show last.memory.peek outputRegion 0
      (BitVec.ofNat 16 (runs.flatMap Run.expand).length).toNat = _
    rw [hlength, hmemory]
    apply hbetween₂.output.peek_eq
    rw [hbetween₂.place.loaded.laidOut.length outputRegion (by decide), Run.length_flatMap_expand]
    omega

/-! ## Streams -/

/-- The stream that holds some lists of runs, one block for each. -/
def runsStream (blocks : List (List Run)) : List Byte :=
  Container.encode (blocks.map runsBlock) expandRuns

/-- The run-length decompressor works end to end: however many blocks a stream has, and however
many runs each of them, as long as these and what they expand to fit into a block, the stream
decompresses to their expansions, without a limit and with every limit that leaves each block nine
steps for a run and six more. -/
theorem runsStream_decompresses (blocks : List (List Run))
    (hfits : ∀ runs ∈ blocks, runs.length ≤ 32764 ∧ Run.total runs ≤ 65535) :
    (∃ patience, decompressUnlimited? patience (runsStream blocks)
        = some (.ok (blocks.flatMap fun runs => runs.flatMap Run.expand)))
      ∧ ∀ limit, (∀ runs ∈ blocks, 9 * runs.length + 6 ≤ limit) →
        decompress limit (runsStream blocks)
            = .ok (blocks.flatMap fun runs => runs.flatMap Run.expand)
          ∧ decompressUnlimited? limit (runsStream blocks)
            = some (.ok (blocks.flatMap fun runs => runs.flatMap Run.expand)) := by
  have hall : ∀ limit, (∀ runs ∈ blocks, 9 * runs.length + 6 ≤ limit) →
      decompress limit (runsStream blocks)
          = .ok (blocks.flatMap fun runs => runs.flatMap Run.expand)
        ∧ decompressUnlimited? limit (runsStream blocks)
          = some (.ok (blocks.flatMap fun runs => runs.flatMap Run.expand)) := by
    intro limit hlimit
    apply decompress_of_turns
    · intro runs hruns
      apply fits_payloadOf
      have hcount := (hfits runs hruns).1
      simp only [BlockHeader.length, segmentSize, Run.length_flatMap_encode]
      omega
    · decide
    · intro runs hruns
      apply turns_expandRuns (hfits runs hruns).1 (hfits runs hruns).2
      rintro n ⟨⟩
      exact hlimit runs hruns
  refine ⟨⟨9 * 32764 + 6, (hall _ fun runs hruns => ?_).2⟩, hall⟩
  have hcount := (hfits runs hruns).1
  omega

/-- Two blocks, one with a count of zero among its runs and one without runs. -/
theorem runsStream_decompresses_two_blocks :
    (∃ patience, decompressUnlimited? patience (runsStream [[(3, 7), (0, 1), (2, 9)], []])
        = some (.ok [7, 7, 7, 9, 9]))
      ∧ decompress 33 (runsStream [[(3, 7), (0, 1), (2, 9)], []]) = .ok [7, 7, 7, 9, 9] := by
  obtain ⟨hunlimited, hlimited⟩ :=
    runsStream_decompresses [[(3, 7), (0, 1), (2, 9)], []] (by decide)
  exact ⟨hunlimited, (hlimited 33 (by decide)).1⟩

end Routine

end CmStream
