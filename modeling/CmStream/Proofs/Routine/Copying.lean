import CmStream.Proofs.Routine.Returning
import CmStream.Proofs.Routine.Streams

/-!
# Copying routines decompress what they were given

The copying routine and the one that reads ahead share all but one instruction. Both are followed
byte by byte from the first instruction to the halt, for data of any length that a block can
hold; what they leave is fit for the next block, so streams of any number of blocks come out
right. Reading ahead over the longest payload makes the source index wrap, and that the check
notices.
-/

namespace CmStream

open Sandbox

/-! ## The string operation -/

namespace StringOperation

open Microprogram

variable {m : Machine}

/-- One byte is copied from the second region to the third. -/
theorem run_element_movs_laidOut {a b : Nat} {value : Byte} (hlaid : LaidOut m.memory)
    (hes : m.registers.es = segmentAt (regionBase outputRegion))
    (hsi : m.registers.si = BitVec.ofNat 16 a) (hdi : m.registers.di = BitVec.ofNat 16 b)
    (hup : m.registers.flag .direction = false) (ha : a < segmentSize) (hb : b < segmentSize)
    (hvalue : m.memory.byteAt ⟨inputRegion, a⟩ = value) :
    (element .movs .byte (segmentAt (regionBase inputRegion))).run m
      = (.ok (), ⟨{ m.registers with si := m.registers.si + 1, di := m.registers.di + 1 },
        m.memory.setByteAt ⟨outputRegion, b⟩ value⟩) := by
  have hread : m.memory.read .read
      (FarPointer.mk (segmentAt (regionBase inputRegion)) m.registers.si).linear = .ok value := by
    rw [hsi, hlaid.read_linear .read (linear_segment (by decide) ha) (by decide) ha, hvalue]
  have hwrite : m.memory.locate .write
      (FarPointer.mk m.registers.es m.registers.di).linear = .ok ⟨outputRegion, b⟩ := by
    rw [hes, hdi]
    exact hlaid.locate_linear .write (linear_segment (by decide) hb) (by decide) hb
  rw [run_element_movs hread hwrite]
  unfold advance stride
  dsimp only
  rw [hup]
  rfl

/-- Repeated from the second region to the third, the operation copies as many bytes as the
counter says. The induction is on the bytes that are left, from the front. -/
theorem run_elements_movs {data : List Byte} {a b : Nat} (repetition : Repetition)
    (hlaid : LaidOut m.memory)
    (hes : m.registers.es = segmentAt (regionBase outputRegion))
    (hsi : m.registers.si = BitVec.ofNat 16 a) (hdi : m.registers.di = BitVec.ofNat 16 b)
    (hup : m.registers.flag .direction = false) (hsource : a + data.length ≤ segmentSize)
    (htarget : b + data.length ≤ segmentSize)
    (hdata : ∀ i, (hi : i < data.length) → m.memory.byteAt ⟨inputRegion, a + i⟩ = data[i]) :
    (elements .movs .byte (segmentAt (regionBase inputRegion)) repetition data.length).run m
      = (.ok (), ⟨{ m.registers with
          cx := m.registers.cx - BitVec.ofNat 16 data.length
          si := BitVec.ofNat 16 (a + data.length)
          di := BitVec.ofNat 16 (b + data.length) }, m.memory.poke outputRegion b data⟩) := by
  induction data generalizing m a b with
  | nil =>
    rw [List.length_nil, Nat.add_zero, Nat.add_zero, ← hsi, ← hdi, PagedMemory.poke_nil,
      BitVec.sub_zero]
    rfl
  | cons byte data ih =>
    rw [List.length_cons] at hsource htarget ⊢
    have hfirst := run_element_movs_laidOut hlaid hes hsi hdi hup (by omega) (by omega)
      (hdata 0 (Nat.succ_pos _))
    have hstored : LaidOut (m.memory.setByteAt ⟨outputRegion, b⟩ byte) :=
      hlaid.of_sameShape (PagedMemory.sameShape_setByteAt _ _ _)
    -- The byte has gone to another region, so those that are left to copy are still in place.
    have hkept : ∀ i, (hi : i < data.length) →
        (m.memory.setByteAt ⟨outputRegion, b⟩ byte).byteAt ⟨inputRegion, a + 1 + i⟩ = data[i] := by
      intro i hi
      have hslot : Slot.mk outputRegion b ≠ ⟨inputRegion, a + 1 + i⟩ := by
        intro h
        cases h
      rw [PagedMemory.byteAt_setByteAt_of_ne _ _ hslot, Nat.add_assoc, Nat.add_comm 1 i]
      exact hdata (i + 1) (Nat.succ_lt_succ hi)
    have hsi' : m.registers.si + 1 = BitVec.ofNat 16 (a + 1) := by
      rw [hsi, BitVec.ofNat_add]
      rfl
    have hdi' : m.registers.di + 1 = BitVec.ofNat 16 (b + 1) := by
      rw [hdi, BitVec.ofNat_add]
      rfl
    have hrest := ih (m := ⟨{ m.registers with
        cx := m.registers.cx - 1, si := m.registers.si + 1, di := m.registers.di + 1 },
      m.memory.setByteAt ⟨outputRegion, b⟩ byte⟩) hstored hes hsi' hdi' hup (by omega) (by omega)
      hkept
    -- The counter comes down one by one, which adds up to the number of bytes.
    have hcounter : m.registers.cx - 1 - BitVec.ofNat 16 data.length
        = m.registers.cx - BitVec.ofNat 16 (data.length + 1) := by
      rw [BitVec.sub_sub, Nat.add_comm data.length, BitVec.ofNat_add]
      rfl
    unfold elements
    rw [run_bind_of_ok _ hfirst, run_bind_of_ok _ (run_modifyRegisters _),
      run_bind_of_ok _ run_registers, PagedMemory.poke_cons, ← hcounter, ← Nat.add_assoc,
      ← Nat.add_assoc, Nat.add_right_comm a, Nat.add_right_comm b]
    exact hrest

end StringOperation

/-! ## The parts of the routines -/

namespace Routine

open Machine

/-- What both copying routines begin with: `mov cx, ax`, `cld`, `rep movsb`. -/
def copyFront : List Byte := [0x89, 0xc1, 0xfc, 0xf3, 0xa4]

/-- Three steps copy the data and leave both indices behind it. -/
theorem reaches_copied {m : Machine} {tail data : List Byte} (h : At (copyFront ++ tail) 0 m)
    (hds : m.registers.ds = segmentAt (regionBase inputRegion))
    (hes : m.registers.es = segmentAt (regionBase outputRegion))
    (hsi : m.registers.si = BitVec.ofNat 16 BlockHeader.length)
    (hdi : m.registers.di = BitVec.ofNat 16 0)
    (hax : m.registers.ax = BitVec.ofNat 16 data.length)
    (hlength : BlockHeader.length + data.length < segmentSize)
    (hdata : ∀ i, (hi : i < data.length) →
      m.memory.byteAt ⟨inputRegion, BlockHeader.length + i⟩ = data[i]) :
    ∃ m', m.Reaches 3 m' ∧ At (copyFront ++ tail) 5 m'
      ∧ m'.memory = m.memory.poke outputRegion 0 data
      ∧ m'.registers.stackPointer = m.registers.stackPointer
      ∧ m'.registers.si = BitVec.ofNat 16 (BlockHeader.length + data.length)
      ∧ m'.registers.di = BitVec.ofNat 16 data.length := by
  have hface : m.Faces (0x89 :: 0xc1 :: 0xfc :: 0xf3 :: 0xa4 :: tail) := h.faces
  -- The machines on the way, each with what the step before it has changed.
  let moved := m.withRegisters
    { m.registers with ip := m.registers.ip + 1 + 1, cx := m.registers.ax }
  let cleared := moved.withRegisters
    (Registers.setFlag { moved.registers with ip := moved.registers.ip + 1 } .direction false)
  let copied : Machine := ⟨{ cleared.registers with
      ip := cleared.registers.ip + 1 + 1
      cx := cleared.registers.cx - BitVec.ofNat 16 data.length
      si := BitVec.ofNat 16 (BlockHeader.length + data.length)
      di := BitVec.ofNat 16 (0 + data.length) }, m.memory.poke outputRegion 0 data⟩
  have hmove : m.step = (.continued, moved) := step_move hface rfl rfl
  have hclear : moved.step = (.continued, cleared) := step_setFlag hface.tail.tail rfl
  have hcopy : cleared.step = (.continued, copied) := by
    have hthird : cleared.Faces (0xf3 :: 0xa4 :: tail) := hface.tail.tail.tail
    have hcount : cleared.registers.cx.toNat = data.length := by
      show m.registers.ax.toNat = data.length
      rw [hax]
      exact Word.toNat_ofNat_of_lt (Nat.lt_of_le_of_lt (Nat.le_add_left _ _) hlength)
    have hsegment : cleared.registers.ds = segmentAt (regionBase inputRegion) := hds
    apply step_repeat hthird rfl rfl
    rw [hcount, hsegment]
    exact StringOperation.run_elements_movs (m := (cleared.skip 1).skip 1) .whileEqual
      h.loaded.laidOut hes hsi hdi (flag_setFlag _ _ _) (Nat.le_of_lt hlength) (by omega) hdata
  have hloaded : Loaded (copyFront ++ tail) copied.memory :=
    h.loaded.poke fun hregion => by contradiction
  have hip : copied.registers.ip = m.registers.ip + BitVec.ofNat 16 5 := by
    show m.registers.ip + 1 + 1 + 1 + 1 + 1 = _
    rw [BitVec.add_assoc, BitVec.add_assoc, BitVec.add_assoc, BitVec.add_assoc]
    rfl
  have hdi' : copied.registers.di = BitVec.ofNat 16 data.length := by
    show BitVec.ofNat 16 (0 + data.length) = _
    rw [Nat.zero_add]
  have hpath : m.Reaches 3 copied :=
    ((Reaches.single hmove).trans (Reaches.single hclear)).trans (Reaches.single hcopy)
  exact ⟨copied, hpath, h.move hloaded rfl hip, rfl, rfl, rfl, hdi'⟩

/-! ## Whole routines -/

/-- A copying routine with something between the copying and the return. -/
def copying (middle : List Byte) : List Byte := copyFront ++ middle ++ success

theorem copy_eq : copy = copying [] := rfl

theorem copyReadingAhead_eq : copyReadingAhead = copying [0x46] := rfl

/-- What stands in the middle takes a number of steps, in which it does nothing but move the
source index on. -/
def Skips (middle : List Byte) (steps : Nat) (bytes : Word) : Prop :=
  ∀ m, At (copying middle) copyFront.length m →
    ∃ m', m.Reaches steps m' ∧ At (copying middle) (copyFront.length + middle.length) m'
      ∧ m'.memory = m.memory ∧ m'.registers.stackPointer = m.registers.stackPointer
      ∧ m'.registers.si = m.registers.si + bytes ∧ m'.registers.di = m.registers.di

theorem skips_nil : Skips [] 0 0 := by
  intro m h
  exact ⟨m, Reaches.refl m, h, rfl, rfl, (BitVec.add_zero _).symm, rfl⟩

theorem skips_increment : Skips [0x46] 1 1 := by
  intro m h
  have hface : m.Faces (0x46 :: success) := h.faces
  have hstep := step_increment hface rfl
  exact ⟨_, Reaches.single hstep, h.move h.loaded rfl rfl, rfl, rfl, rfl, rfl⟩

/-- The block that copying routines turn into some data, at a place in a stream. -/
def copiedBlockAt (offset : Nat) (data : List Byte) : Block :=
  ⟨offset, (copiedBlock data).1, (copiedBlock data).2⟩

variable {s : Sandbox} {limit : Option Nat} {middle data : List Byte} {steps offset : Nat}
  {skipped : Word}

theorem length_payload_copiedBlockAt (offset : Nat) (data : List Byte) :
    (copiedBlockAt offset data).payload.length = BlockHeader.length + data.length :=
  length_payloadOf _ data

/-- The header of that block: its control word is the number of bytes to copy. -/
def copiedHeader (data : List Byte) : BlockHeader := ⟨0, BitVec.ofNat 16 data.length⟩

/-- Behind the header, the data lies in the second region. -/
theorem byteAt_entered_data {header : BlockHeader} (hlaid : LaidOut s.machine.memory)
    (hlength : BlockHeader.length + data.length < segmentSize) {i : Nat} (hi : i < data.length) :
    (s.entered (copiedBlockAt offset data) header).memory.byteAt
      ⟨inputRegion, BlockHeader.length + i⟩ = data[i] :=
  byteAt_entered_payloadOf rfl hlaid hlength hi

/-- From its first instruction, a copying routine comes to the foot of memory and halts there. The
output has been written, the routine is still in its place, and both indices have moved on. -/
theorem reaches_end (offset : Nat) (hskips : Skips middle steps skipped)
    (h : Ready (copying middle) s) (hlength : BlockHeader.length + data.length < segmentSize) :
    ∃ foot last,
      (s.entered (copiedBlockAt offset data) (copiedHeader data)).Reaches (3 + steps + 2) foot
      ∧ foot.step = (.halted, last)
      ∧ last.memory = (s.entered (copiedBlockAt offset data) (copiedHeader data)).memory.poke
          outputRegion 0 data
      ∧ Loaded (copying middle) last.memory
      ∧ last.registers.codePointer = expectedHalt ∧ last.registers.flag .carry = false
      ∧ last.registers.si = BitVec.ofNat 16 (BlockHeader.length + data.length) + skipped
      ∧ last.registers.di = BitVec.ofNat 16 data.length := by
  have hlaid := h.loaded.laidOut
  have hstart : At (copyFront ++ (middle ++ success)) 0
      (s.entered (copiedBlockAt offset data) (copiedHeader data)) := by
    rw [← List.append_assoc]
    exact at_entered h
  obtain ⟨m₁, hcopied, hat₁, hmemory₁, hstack₁, hsi₁, hdi₁⟩ :=
    reaches_copied hstart rfl rfl rfl rfl rfl hlength
      fun i hi => byteAt_entered_data hlaid hlength hi
  rw [← List.append_assoc] at hat₁
  obtain ⟨m₂, hskipped, hat₂, hmemory₂, hstack₂, hsi₂, hdi₂⟩ := hskips m₁ hat₁
  have hmemory := hmemory₂.trans hmemory₁
  -- Only the third region has been written to, and the stack is in the first.
  have hreturn : ∀ i, i < 4 → m₂.memory.byteAt ⟨codeRegion, returnSlot.toNat + i⟩ = 0 := by
    intro i hi
    rw [hmemory, PagedMemory.byteAt_poke_of_outside fun hregion => by contradiction]
    exact byteAt_entered_return hlaid hi
  have hmiddle : At (copyFront ++ middle ++ success) (copyFront ++ middle).length m₂ := by
    rw [List.length_append]
    exact hat₂
  obtain ⟨foot, last, hfoot, hhalt, hmemory₃, hplace, hcarry, hsi₃, hdi₃⟩ :=
    reaches_foot hmiddle (hstack₂.trans hstack₁) hreturn
  refine ⟨foot, last, (hcopied.trans hskipped).trans hfoot, hhalt, hmemory₃.trans hmemory, ?_,
    hplace, hcarry, ?_, ?_⟩
  · rw [hmemory₃]
    exact hat₂.loaded
  · rw [hsi₃, hsi₂, hsi₁]
  · rw [hdi₃, hdi₂, hdi₁]

/-- A copying routine runs to its end, with the data in the output and the sandbox ready for the
next block. -/
theorem runs_copying (offset : Nat) (hskips : Skips middle steps skipped)
    (h : Ready (copying middle) s)
    (hlength : BlockHeader.length + data.length < segmentSize)
    (hlimit : ∀ n, limit = some n → 3 + steps + 2 < n) :
    ∃ after, Runs limit s (copiedBlockAt offset data) (.ok (3 + steps + 2 + 1)) after
      ∧ after.machine.registers.codePointer = expectedHalt
      ∧ after.machine.registers.flag .carry = false
      ∧ after.machine.registers.si = BitVec.ofNat 16 (BlockHeader.length + data.length) + skipped
      ∧ after.machine.registers.di = BitVec.ofNat 16 data.length
      ∧ Ready (copying middle) after
      ∧ after.output (BitVec.ofNat 16 data.length) = data := by
  obtain ⟨foot, last, hpath, hhalt, hmemory, hloaded, hplace, hcarry, hsi, hdi⟩ :=
    reaches_end offset hskips h hlength
  have hruns : Runs limit s (copiedBlockAt offset data) (.ok (3 + steps + 2 + 1))
      ⟨last, s.entry⟩ :=
    ⟨⟨copiedHeader data, ⟨data, rfl⟩, hpath.ends hhalt hlimit⟩, rfl⟩
  refine ⟨⟨last, s.entry⟩, hruns, hplace, hcarry, hsi, hdi, ⟨hloaded, h.entry⟩, ?_⟩
  have hword : (BitVec.ofNat 16 data.length).toNat = data.length :=
    Word.toNat_ofNat_of_lt (Nat.lt_of_le_of_lt (Nat.le_add_left _ _) hlength)
  unfold output
  rw [hword]
  show last.memory.peek outputRegion 0 data.length = data
  rw [hmemory]
  apply PagedMemory.peek_poke
  rw [(laidOut_entered h.loaded.laidOut _ _).length outputRegion (by decide)]
  omega

/-! ## Single blocks -/

/-- The longest data that a copied block can hold behind its header. -/
def maxCopied : Nat := 0xfff9

theorem fits_copiedBlock (hlength : data.length ≤ maxCopied) : Block.Fits (copiedBlock data) := by
  apply fits_payloadOf
  simp only [BlockHeader.length, maxCopied, segmentSize] at hlength ⊢
  omega

/-- What a call of a copying routine comes to when the routine accepts its block. -/
def Copies (routine : List Byte) (limit : Option Nat) (data : List Byte) : Prop :=
  ∀ s offset, Ready routine s →
    ∃ after, Accepts limit s (copiedBlockAt offset data) after ∧ Ready routine after
      ∧ after.output (BitVec.ofNat 16 data.length) = data

theorem copies_copy (hlength : data.length ≤ maxCopied) (hlimit : ∀ n, limit = some n → 6 ≤ n) :
    Copies copy limit data := by
  rw [copy_eq]
  intro s offset h
  have hroom : BlockHeader.length + data.length < segmentSize := by
    simp only [maxCopied, BlockHeader.length, segmentSize] at hlength ⊢
    omega
  obtain ⟨after, hruns, hplace, hcarry, hsi, hdi, hready, hout⟩ :=
    runs_copying offset skips_nil h hroom hlimit
  refine ⟨after, ⟨_, hruns, ⟨⟨_, rfl⟩, hplace⟩, hcarry, .inl ?_, hdi⟩, hready, hout⟩
  rw [hsi, length_payload_copiedBlockAt]
  show (_ + 0#16).toNat = _
  rw [BitVec.add_zero]
  exact Word.toNat_ofNat_of_lt hroom

theorem copies_copyReadingAhead (hlength : data.length < maxCopied)
    (hlimit : ∀ n, limit = some n → 7 ≤ n) : Copies copyReadingAhead limit data := by
  rw [copyReadingAhead_eq]
  intro s offset h
  have hroom : BlockHeader.length + data.length + 1 < segmentSize := by
    simp only [maxCopied, BlockHeader.length, segmentSize] at hlength ⊢
    omega
  obtain ⟨after, hruns, hplace, hcarry, hsi, hdi, hready, hout⟩ :=
    runs_copying offset skips_increment h (Nat.lt_of_succ_lt hroom) hlimit
  refine ⟨after, ⟨_, hruns, ⟨⟨_, rfl⟩, hplace⟩, hcarry, .inr ?_, hdi⟩, hready, hout⟩
  rw [hsi, length_payload_copiedBlockAt]
  show (_ + BitVec.ofNat 16 1).toNat = _
  rw [← BitVec.ofNat_add]
  exact Word.toNat_ofNat_of_lt hroom

/-- Behind the longest payload, reading ahead wraps the source index to zero. -/
theorem rejects_copyReadingAhead (h : Ready copyReadingAhead s) (hlength : data.length = maxCopied)
    (hlimit : ∀ n, limit = some n → 7 ≤ n) :
    Rejects limit s (copiedBlockAt offset data)
      (.execution offset (.lengthMismatch .consumed 65535 0)) := by
  rw [copyReadingAhead_eq] at h
  have hroom : BlockHeader.length + data.length < segmentSize := by
    rw [hlength]
    decide
  obtain ⟨after, hruns, hplace, hcarry, hsi, -, -, -⟩ :=
    runs_copying offset skips_increment h hroom hlimit
  have hpayload := length_payload_copiedBlockAt offset data
  rw [hlength] at hpayload hsi
  -- The index has come to 65535 behind the payload, and one more is zero in a word.
  have hzero : after.machine.registers.si = 0 := hsi.trans (by decide)
  have hexpected : (copiedBlockAt offset data).compressedLength = 65535 := by
    unfold Block.compressedLength
    rw [hpayload]
    rfl
  have hmissed : ¬ (copiedBlockAt offset data).Consumed after.machine.registers := by
    unfold Block.Consumed
    rw [hzero, hpayload]
    decide
  have hreturned : Block.Returned (.ok (3 + 1 + 2 + 1)) after.machine.registers :=
    ⟨⟨_, rfl⟩, hplace⟩
  have hmisses := Block.Misses.consumed hreturned hcarry hmissed
  rw [hexpected, hzero] at hmisses
  exact .run hruns hmisses

/-! ## Streams -/

section Streams

variable {routine : List Byte} {datas before later : List (List Byte)} {n : Nat}
  {error : ExecutionError}

/-- A block that is rejected wherever it stands is rejected behind blocks that are copied. -/
theorem rejectsFirst_of_copies (position : Nat) (later : List (List Byte)) (h : Ready routine s)
    (hcopies : ∀ data ∈ before, Copies routine limit data)
    (hrejects : ∀ s offset, Ready routine s →
      Rejects limit s (copiedBlockAt offset data) (.execution offset error)) :
    RejectsFirst limit s
      (Block.placed position ((before ++ data :: later).map copiedBlock))
      (.execution (position + (Block.encodeAll (before.map copiedBlock)).length) error) := by
  induction before generalizing s position with
  | nil => exact .here _ (hrejects s position h)
  | cons first before ih =>
    obtain ⟨after, haccepts, hready, -⟩ := hcopies first List.mem_cons_self s position h
    have hlater : RejectsFirst limit after
        (Block.placed
          (position + (Block.encode (copiedBlock first).1 (copiedBlock first).2).length)
          ((before ++ data :: later).map copiedBlock)) _ :=
      ih _ hready fun other hother => hcopies other (List.mem_cons_of_mem _ hother)
    -- The place of the rejected block is counted from the front of all blocks.
    rw [Nat.add_assoc, ← Block.length_encodeAll_cons, ← List.map_cons] at hlater
    exact .later haccepts hlater

/-- The blocks of a copied stream take up eleven bytes each beside their data. -/
theorem length_encodeAll_copied (datas : List (List Byte)) :
    (Block.encodeAll (datas.map copiedBlock)).length
      = 11 * datas.length + datas.flatten.length := by
  induction datas with
  | nil => rfl
  | cons data datas ih =>
    have hpayload := length_payload_copiedBlockAt 0 data
    unfold copiedBlockAt at hpayload
    rw [List.map_cons, Block.length_encodeAll_cons, ih, Block.length_encode, hpayload,
      List.length_cons, List.flatten_cons, List.length_append]
    unfold BlockHeader.length
    omega

/-- The stream that holds some data for a copying routine. -/
def copiedStream (routine : List Byte) (datas : List (List Byte)) : List Byte :=
  Container.encode (datas.map copiedBlock) routine

/-- A stream of copied blocks is parsed into these blocks, and its sandbox is ready. -/
theorem exists_ready_of_copiedStream (hfits : ∀ data ∈ datas, data.length ≤ maxCopied)
    (hlength : (Image.encode routine).length ≤ codeSpace) :
    ∃ container s, Container.parse (copiedStream routine datas) = .ok container
      ∧ container.blocks = Block.placed 2 (datas.map copiedBlock)
      ∧ container.image.code.length ≤ codeSpace
      ∧ Sandbox.load container.image = .ok s ∧ Ready routine s :=
  exists_ready_of_encode (fun data hdata => fits_copiedBlock (hfits data hdata)) hlength

/-- A stream of blocks that are all copied decompresses to their data. -/
theorem decompress_of_copies (hfits : ∀ data ∈ datas, data.length ≤ maxCopied)
    (hlength : (Image.encode routine).length ≤ codeSpace)
    (hcopies : ∀ data ∈ datas, Copies routine (some n) data) :
    decompress n (copiedStream routine datas) = .ok datas.flatten
      ∧ decompressUnlimited? n (copiedStream routine datas) = some (.ok datas.flatten) := by
  have hturns : ∀ data ∈ datas, Turns routine (some n) (copiedBlock data) (id data) := hcopies
  have hall := decompress_of_turns (fun data hdata => fits_copiedBlock (hfits data hdata)) hlength
    hturns
  rw [List.flatMap_id] at hall
  exact hall

/-- A stream fails at the first block that is not copied but rejected. -/
theorem decompress_of_copies_of_rejects
    (hfits : ∀ other ∈ before ++ data :: later, other.length ≤ maxCopied)
    (hlength : (Image.encode routine).length ≤ codeSpace)
    (hcopies : ∀ first ∈ before, Copies routine (some n) first)
    (hrejects : ∀ s offset, Ready routine s →
      Rejects (some n) s (copiedBlockAt offset data) (.execution offset error))
    (hown : ∀ offset, (Error.execution offset error).isStepLimit = false) :
    decompress n (copiedStream routine (before ++ data :: later))
        = .error (.execution (2 + (11 * before.length + before.flatten.length)) error)
      ∧ decompressUnlimited? n (copiedStream routine (before ++ data :: later))
        = some (.error (.execution (2 + (11 * before.length + before.flatten.length)) error)) := by
  obtain ⟨container, s, hparse, hblocks, hshort, hload, hready⟩ :=
    exists_ready_of_copiedStream hfits hlength
  have hfirst := rejectsFirst_of_copies 2 later hready hcopies hrejects
  rw [← hblocks, length_encodeAll_copied] at hfirst
  have herror := decompress_of_failed (.block hparse hshort hload hfirst)
  refine ⟨herror, decompressUnlimited_eq_some_iff.mpr ⟨herror, ?_⟩⟩
  rintro _ ⟨⟩
  exact hown _

/-- Identity decompressors work end to end: whatever the data and however many blocks, copying
gives the data back, with a limit of six steps or more and without one. Reading ahead does so
with one step more and one byte less; behind the longest payload it fails, at that block. -/
theorem copiedStream_decompresses :
    (∀ datas : List (List Byte), (∀ data ∈ datas, data.length ≤ 65529) → ∀ limit, 6 ≤ limit →
        decompress limit (copiedStream copy datas) = .ok datas.flatten
          ∧ decompressUnlimited? limit (copiedStream copy datas) = some (.ok datas.flatten))
      ∧ (∀ datas : List (List Byte), (∀ data ∈ datas, data.length ≤ 65528) → ∀ limit, 7 ≤ limit →
        decompress limit (copiedStream copyReadingAhead datas) = .ok datas.flatten
          ∧ decompressUnlimited? limit (copiedStream copyReadingAhead datas)
            = some (.ok datas.flatten))
      ∧ ∀ (before : List (List Byte)) (data : List Byte) (later : List (List Byte)),
        (∀ first ∈ before, first.length ≤ 65528) → data.length = 65529 →
        (∀ last ∈ later, last.length ≤ 65529) → ∀ limit, 7 ≤ limit →
        decompress limit (copiedStream copyReadingAhead (before ++ data :: later))
            = .error (.execution (2 + (11 * before.length + before.flatten.length))
              (.lengthMismatch .consumed 65535 0))
          ∧ decompressUnlimited? limit (copiedStream copyReadingAhead (before ++ data :: later))
            = some (.error (.execution (2 + (11 * before.length + before.flatten.length))
              (.lengthMismatch .consumed 65535 0))) := by
  refine ⟨?_, ?_, ?_⟩
  · intro datas hfits limit hlimit
    apply decompress_of_copies hfits (by decide)
    intro data hdata
    apply copies_copy (hfits data hdata)
    rintro n ⟨⟩
    exact hlimit
  · intro datas hfits limit hlimit
    apply decompress_of_copies (fun data hdata => Nat.le_succ_of_le (hfits data hdata)) (by decide)
    intro data hdata
    apply copies_copyReadingAhead (Nat.lt_succ_of_le (hfits data hdata))
    rintro n ⟨⟩
    exact hlimit
  · intro before data later hbefore hdata hlater limit hlimit
    have hgranted : ∀ n, some limit = some n → 7 ≤ n := by
      rintro n ⟨⟩
      exact hlimit
    apply decompress_of_copies_of_rejects
    · intro other hother
      rcases List.mem_append.mp hother with hother | hother
      · exact Nat.le_succ_of_le (hbefore other hother)
      · rcases List.mem_cons.mp hother with rfl | hother
        · exact Nat.le_of_eq hdata
        · exact hlater other hother
    · decide
    · intro first hfirst
      exact copies_copyReadingAhead (Nat.lt_succ_of_le (hbefore first hfirst)) hgranted
    · intro s offset hready
      exact rejects_copyReadingAhead hready hdata hgranted
    · intro offset
      rfl

/-- Two blocks, one of them empty, and a longest block behind a short one. -/
theorem copiedStream_decompresses_two_blocks :
    decompress 6 (copiedStream copy [[1, 2, 3], []]) = .ok [1, 2, 3]
      ∧ decompress 7 (copiedStream copyReadingAhead [[1, 2, 3], []]) = .ok [1, 2, 3]
      ∧ decompress 7 (copiedStream copyReadingAhead ([[1, 2, 3]] ++ [List.replicate 65529 0]))
        = .error (.execution 16 (.lengthMismatch .consumed 65535 0)) := by
  obtain ⟨hcopy, hahead, hwrap⟩ := copiedStream_decompresses
  refine ⟨(hcopy [[1, 2, 3], []] (by decide) 6 (by decide)).1,
    (hahead [[1, 2, 3], []] (by decide) 7 (by decide)).1, ?_⟩
  exact (hwrap [[1, 2, 3]] (List.replicate 65529 0) [] (by decide) List.length_replicate
    (by decide) 7 (by decide)).1

end Streams

end Routine

end CmStream
