import CmStream.Checked.Decompression
import CmStream.Proofs.Checked.Execution
import CmStream.Proofs.Checked.Reading
import CmStream.Proofs.Routine.Copying
import CmStream.Proofs.Sandbox.Acceptance

/-!
# Decompressing is defined

For every input and every limit, decompressing with everything checked comes to what decompressing
comes to. So nothing that an input contains, neither its structure nor the code that it brings with
it, leads to an operation that is not defined: there is always an output or an error.
-/

namespace CmStream

namespace Checked

open Sandbox (LaidOut codeRegion inputRegion outputRegion segmentSize stackReserve)

/-! ## Layout -/

namespace Harness

/-- A sandbox with the numbers that its regions have. -/
def ofSandbox (s : Sandbox) : Harness := ⟨s.machine, inputRegion, outputRegion, s.entry⟩

/-- As many regions as a sandbox has, each of them a segment long. -/
def HasSegments (m : PagedMemory) : Prop :=
  m.regions.size = 3 ∧ ∀ index, index < 3 → (m.region index).size = segmentSize

theorem hasSegments_contents (code : List Byte) : HasSegments (Sandbox.contents code) :=
  ⟨Array.size_modify.trans Array.size_modify, fun _ => Sandbox.size_region_contents code⟩

theorem HasSegments.mapSegment {m : PagedMemory} (h : HasSegments m) (index : Nat) :
    HasSegments (Sandbox.mapSegment m index) := by
  unfold HasSegments
  simp only [Sandbox.regions_mapSegment, Sandbox.region_mapSegment]
  exact h

theorem HasSegments.run_map {m m' : PagedMemory} {index : Nat} (h : HasSegments m)
    (hindex : index < 3)
    (hmap : m.map (Sandbox.regionBase index) index Permissions.all = .ok m') :
    (map m (Sandbox.regionBase index) index Permissions.all).run = some (.ok m') := by
  have hbase : Sandbox.regionBase index < 1 <<< 32 := by
    simp only [Sandbox.regionBase, segmentSize]
    omega
  have hsize : (m.region index).size < 1 <<< 63 := by
    rw [h.2 index hindex]
    decide
  rw [Checked.run_map (by rw [h.1]; exact hindex) hbase hsize, hmap]

/-- What each part of the layout has to come to; memories are named, since none is computed. -/
theorem run_load_of_parts {image : Image} {m₁ m₂ m₃ m₄ m₅ m₆ m₇ m₈ : PagedMemory}
    (hfits : image.code.length ≤ Sandbox.codeSpace)
    (hcode : allocate PagedMemory.empty segmentSize = some (codeRegion, m₁))
    (hinput : allocate m₁ segmentSize = some (inputRegion, m₂))
    (houtput : allocate m₂ segmentSize = some (outputRegion, m₃))
    (hhalt : copyInto m₃ codeRegion 0 1 [Sandbox.haltingByte] = some m₄)
    (himage : copyInto m₄ codeRegion stackReserve (stackReserve + image.code.length) image.code
      = some m₅)
    (hmapCode : (map m₅ (Sandbox.regionBase codeRegion) codeRegion Permissions.all).run
      = some (.ok m₆))
    (hmapInput : (map m₆ (Sandbox.regionBase inputRegion) inputRegion Permissions.all).run
      = some (.ok m₇))
    (hmapOutput : (map m₇ (Sandbox.regionBase outputRegion) outputRegion Permissions.all).run
      = some (.ok m₈)) :
    (load image).run
      = some (.ok ⟨⟨Registers.initial, m₈⟩, inputRegion, outputRegion, image.entry⟩) := by
  have hspace : Number.subtract segmentSize stackReserve = some Sandbox.codeSpace := by rfl
  have hstop : stackReserve + image.code.length < 1 <<< 64 := by
    simp only [Sandbox.codeSpace, segmentSize, stackReserve] at hfits ⊢
    omega
  unfold load
  refine Matches.run_eq (Matches.step hspace ?_)
  rw [if_neg (Nat.not_lt.mpr hfits)]
  refine Matches.step hcode (Matches.step hinput (Matches.step houtput ?_))
  refine Matches.step hhalt (Matches.step (Number.add_eq_some hstop) (Matches.step himage ?_))
  refine Matches.after (Matches.adapt_ok hmapCode _) (Matches.after (Matches.adapt_ok hmapInput _)
    (Matches.after (Matches.adapt_ok hmapOutput _) (Matches.pure rfl)))

/-- The three regions before anything is copied or mapped. -/
def regions : PagedMemory :=
  ((PagedMemory.empty.allocate segmentSize).allocate segmentSize).allocate segmentSize

theorem contents_eq (code : List Byte) : Sandbox.contents code
    = (regions.poke codeRegion 0 [Sandbox.haltingByte]).poke codeRegion stackReserve code := rfl

/-- Copying changes neither how many regions there are nor how long they are. -/
theorem sameShape_regions (code : List Byte) : regions.SameShape (Sandbox.contents code) := by
  rw [contents_eq]
  exact (PagedMemory.sameShape_poke ..).trans (PagedMemory.sameShape_poke ..)

/-- Memory of the shape of the regions has room for a segment of code. -/
theorem copyInto_code {m : PagedMemory} (hshape : regions.SameShape m) {start : Nat}
    {bytes : List Byte} (hroom : start + bytes.length ≤ segmentSize) :
    copyInto m codeRegion start (start + bytes.length) bytes
      = some (m.poke codeRegion start bytes) := by
  have hcontents := sameShape_regions []
  obtain ⟨hregions, hlength⟩ := hasSegments_contents []
  refine copyInto_eq_some ?_ ?_
  · rw [← hshape.regions, hcontents.regions, hregions]
    decide
  · rw [← hshape.length, hcontents.length, hlength _ (by decide)]
    exact hroom

/-- An image that fits is copied and mapped; every region is there and has room. -/
theorem run_load_of_fits {image : Image} (hfits : image.code.length ≤ Sandbox.codeSpace) :
    (load image).run = some (.ok (ofSandbox (Sandbox.initial image))) := by
  have hroom : stackReserve + image.code.length ≤ segmentSize := by
    simp only [Sandbox.codeSpace, segmentSize, stackReserve] at hfits ⊢
    omega
  have hone : 0 + [Sandbox.haltingByte].length ≤ segmentSize := by decide
  have hhalt := copyInto_code (.refl regions) hone
  have himage := copyInto_code
    (PagedMemory.sameShape_poke regions codeRegion 0 [Sandbox.haltingByte]) hroom
  have hcode := hasSegments_contents image.code
  have hinput := hcode.mapSegment codeRegion
  have houtput := hinput.mapSegment inputRegion
  have hmapCode := hcode.run_map (by decide) (Sandbox.map_code image.code)
  have hmapInput := hinput.run_map (by decide) (Sandbox.map_input image.code)
  have hmapOutput := houtput.run_map (by decide) (Sandbox.map_output image.code)
  exact run_load_of_parts hfits (allocate_eq_some _ _) (allocate_eq_some _ _)
    (allocate_eq_some _ _) hhalt himage hmapCode hmapInput hmapOutput

theorem matches_load (image : Image) :
    Matches (fun h s => h = ofSandbox s) (load image) (Sandbox.load image) := by
  by_cases hfits : image.code.length ≤ Sandbox.codeSpace
  · rw [Sandbox.load_eq_ok hfits]
    exact ⟨_, run_load_of_fits hfits, rfl⟩
  · have hlong : Sandbox.codeSpace < image.code.length := Nat.lt_of_not_le hfits
    have hspace : Number.subtract segmentSize stackReserve = some Sandbox.codeSpace := by rfl
    rw [Sandbox.load_eq_error hlong]
    unfold load
    refine Matches.step hspace ?_
    rw [if_pos hlong]
    rfl

/-! ## Calls -/

theorem units_eq_some (uncompressedLength : Word) : units uncompressedLength
    = some ((uncompressedLength.toNat + Sandbox.outputUnit - 1) / Sandbox.outputUnit) := by
  have hlt := uncompressedLength.isLt
  have hsum : uncompressedLength.toNat + Sandbox.outputUnit < 1 <<< 32 := by
    simp only [Sandbox.outputUnit]
    omega
  have hone : 1 ≤ uncompressedLength.toNat + Sandbox.outputUnit := by
    simp only [Sandbox.outputUnit]
    omega
  have hunit : Sandbox.outputUnit ≠ 0 := by decide
  simp only [units, Number.add_eq_some hsum, Number.subtract_eq_some hone,
    Number.divide_eq_some _ hunit, Option.bind_eq_bind, Option.bind_some]

theorem segmentAt_eq_some (address : Nat) :
    segmentAt address = some (Sandbox.segmentAt address) := by
  have hshift := Number.shiftRight_eq_some address (by decide : 4 < 32)
  rw [Nat.shiftRight_eq_div_pow] at hshift
  simp only [segmentAt, hshift, Option.bind_eq_bind, Option.bind_some]
  rfl

theorem entryRegisters_eq_some (entry control uncompressedLength : Word) :
    entryRegisters entry control uncompressedLength
      = some (Sandbox.entryRegisters entry control uncompressedLength) := by
  have hfoot : Number.add 64 (Sandbox.regionBase codeRegion) stackReserve = some stackReserve := by
    rfl
  simp only [entryRegisters, hfoot, segmentAt_eq_some, units_eq_some, Option.bind_eq_bind,
    Option.bind_some]
  rfl

variable {s : Sandbox} {limit : Nat} {block : Block}

theorem laidOut_execute (h : LaidOut s.machine.memory) (limit : Nat) (block : Block)
    (header : BlockHeader) : LaidOut (s.execute limit block header).2.machine.memory := by
  obtain ⟨k, hafter⟩ := (Machine.ends_run limit (s.entered block header)).exists_after
  unfold Sandbox.execute
  rw [Sandbox.prepare_eq h]
  show LaidOut ((s.entered block header).run limit).2.memory
  rw [hafter]
  exact (Sandbox.laidOut_entered h block header).of_sameShape (Machine.sameShape_after k _)

/-- A payload has room in its region, and the machine starts on sound memory. -/
theorem execute_eq_some (h : LaidOut s.machine.memory) (hlimit : limit < 1 <<< 64)
    (hpayload : block.payload.length ≤ segmentSize) (header : BlockHeader) :
    execute limit (ofSandbox s) block header
      = some ((s.execute limit block header).1, ofSandbox (s.execute limit block header).2) := by
  have hcopy : copyInto s.machine.memory inputRegion 0 block.payload.length block.payload
      = some (s.machine.memory.poke inputRegion 0 block.payload) := by
    have hroom : 0 + block.payload.length ≤ (s.machine.memory.region inputRegion).size := by
      rw [h.length inputRegion (by decide), Nat.zero_add]
      exact hpayload
    have hregion : inputRegion < s.machine.memory.regions.size := by
      rw [h.regions]
      decide
    have hcopy := copyInto_eq_some hregion hroom
    rw [Nat.zero_add] at hcopy
    exact hcopy
  have hpoked : LaidOut (s.machine.memory.poke inputRegion 0 block.payload) :=
    h.of_sameShape (PagedMemory.sameShape_poke _ _ _ _)
  have henter : runEffects (Sandbox.enter (Sandbox.entryRegisters s.entry header.control
        block.uncompressedLength))
      ⟨s.machine.registers, s.machine.memory.poke inputRegion 0 block.payload⟩
      = some (.ok (), s.entered block header) := by
    rw [runEffects_eq_some _ (.of_laidOut hpoked)]
    exact congrArg some (Sandbox.run_enter _ _ hpoked rfl)
  have hrun := run_eq_some (.of_laidOut (Sandbox.laidOut_entered h block header)) hlimit
  unfold Sandbox.execute
  rw [Sandbox.prepare_eq h]
  simp only [execute, ofSandbox, hcopy, entryRegisters_eq_some, henter, hrun, Option.bind_eq_bind,
    Option.bind_some]
  rfl

/-- The result of a call together with the sandbox as it is afterwards. -/
def called (limit : Nat) (s : Sandbox) (block : Block) :
    Except FormatError (CallResult × Sandbox) :=
  (s.call limit block).1.map fun result => (result, (s.call limit block).2)

theorem matches_call (h : LaidOut s.machine.memory) (hlimit : limit < 1 <<< 64)
    (hpayload : block.payload.length ≤ segmentSize) :
    Matches (fun found called => found = (called.1, ofSandbox called.2)
        ∧ LaidOut called.2.machine.memory)
      (call limit (ofSandbox s) block) (called limit s block) := by
  have haddressable : Addressable block.payload := by
    unfold Addressable
    simp only [segmentSize] at hpayload
    omega
  have hheader := run_readHeader haddressable
  unfold called Sandbox.call call
  cases hread : block.header with
  | error error =>
    rw [hread] at hheader
    exact (Matches.of_run hheader).bind_of_ok (g := fun _ => .error error)
      fun _ _ hread => by cases hread
  | ok header =>
    rw [hread] at hheader
    refine Matches.after hheader (Matches.step (execute_eq_some h hlimit hpayload header) ?_)
    exact Matches.pure ⟨rfl, laidOut_execute h limit block header⟩

end Harness

theorem run_check (result : CallResult) (block : Block) :
    (check result block).run = some (result.check block) := by
  have hahead : block.compressedLength.toNat + 1 < 1 <<< 32 := by
    have hlt := block.compressedLength.isLt
    omega
  unfold check CallResult.check
  refine Matches.run_eq ?_
  refine Matches.guard _ fun _ => Matches.guard _ fun _ => ?_
  refine Matches.step (Number.add_eq_some hahead) (Matches.guard _ fun _ => ?_)
  exact Matches.ite (fun _ => Matches.throw _) fun _ => Matches.pure rfl

/-! ## Streams -/

/-- One block and then the rest, as a sequence of parts that may each fail. -/
theorem decompress_cons (limit : Nat) (s : Sandbox) (block : Block) (blocks : List Block) :
    s.decompress limit (block :: blocks) = (do
      let (result, after) ← (Harness.called limit s block).mapError .format
      (result.check block).mapError (.execution block.offset)
      let rest ← after.decompress limit blocks
      return after.output block.uncompressedLength ++ rest) := by
  conv => lhs; unfold Sandbox.decompress
  unfold Harness.called
  rcases s.call limit block with ⟨error | result, after⟩
  · rfl
  · change _ = ((result.check block).mapError (Error.execution block.offset) >>= fun _ =>
      after.decompress limit blocks >>= fun rest =>
        .ok (after.output block.uncompressedLength ++ rest))
    dsimp only
    cases result.check block with
    | error error => rfl
    | ok _ =>
      cases after.decompress limit blocks with
      | error error => rfl
      | ok rest => rfl

variable {bytes : List Byte} {limit : Nat}

theorem matches_decompressBlocks (hlength : Addressable bytes) (hlimit : limit < 1 <<< 64)
    {turns attempts : Nat} {c : Cursor} {r behind : Reader} {s : Sandbox} {blocks : List Block}
    (h : c.Reads bytes r) (hblocks : Block.readAll attempts r = .ok (blocks, behind))
    (hturns : attempts < turns) (hlaid : LaidOut s.machine.memory) :
    Matches Eq (decompressBlocks limit turns (.ofSandbox s) c) (s.decompress limit blocks) := by
  induction attempts generalizing turns c r s blocks with
  | zero => cases hblocks
  | succ attempts ih =>
    obtain ⟨turns, rfl⟩ := Nat.exists_eq_add_one_of_ne_zero (Nat.ne_zero_of_lt hturns)
    unfold Block.readAll at hblocks
    obtain ⟨⟨found, middle⟩, hread, hblocks⟩ := bind_eq_ok_iff.mp hblocks
    have hmatches := matches_readBlock h hlength
    rw [hread] at hmatches
    obtain ⟨_, hrun, ⟨_, h₁⟩⟩ := hmatches
    unfold decompressBlocks
    refine Matches.after (Matches.adapt_ok hrun _) ?_
    cases found with
    | none =>
      cases hblocks
      exact Matches.pure rfl
    | some block =>
      obtain ⟨⟨rest, last⟩, hrest, hblocks⟩ := bind_eq_ok_iff.mp hblocks
      cases hblocks
      have hpayload : block.payload.length ≤ segmentSize := by
        rcases Block.read?_eq_ok hread with ⟨hnone, -⟩ | ⟨_, ⟨⟩, -, hfits, -⟩
        · cases hnone
        · exact Nat.le_succ_of_le hfits.2
      rw [decompress_cons]
      refine ((Harness.matches_call hlaid hlimit hpayload).mapError Error.format).bind ?_
      rintro _ ⟨result, after⟩ ⟨rfl, hafter⟩
      refine ((Matches.of_run (run_check result block)).mapError _).bind ?_
      rintro _ _ -
      have hregion : outputRegion < after.machine.memory.regions.size := by
        rw [hafter.regions]
        decide
      have hroom : block.uncompressedLength.toNat
          ≤ (after.machine.memory.region outputRegion).size := by
        rw [hafter.length outputRegion (by decide)]
        exact Nat.le_of_lt block.uncompressedLength.isLt
      refine Matches.step (firstBytes_eq_some hregion hroom) ?_
      refine (ih h₁ hrest (Nat.lt_of_succ_lt_succ hturns) hafter).bind ?_
      rintro rest _ rfl
      exact Matches.pure rfl

/-- Decompressing with everything checked is defined for every input and every limit, and comes to
the output or the error that decompressing comes to. The shifts by which any instruction reaches the
upper byte of a word are defined as well. -/
theorem decompress_defined (hlength : Addressable bytes) (hlimit : limit < 1 <<< 64) :
    (decompress limit bytes).run = some (CmStream.decompress limit bytes)
      ∧ (∀ w, upperByte w = some (Word.high w))
      ∧ ∀ first second, joinBytes first second = some (Word.ofBytes first second) := by
  refine ⟨?_, upperByte_eq_some, joinBytes_eq_some⟩
  unfold decompress CmStream.decompress
  refine Matches.run_eq (((matches_parse hlength).mapError Error.format).bind ?_)
  rintro parsed container ⟨himage, r, behind, hreads, hblocks⟩
  rw [himage]
  refine ((Harness.matches_load container.image).mapError Error.setup).bind_of_ok ?_
  rintro _ s hload rfl
  have hlaid := laidOut_of_load (mapError_eq_ok_iff.mp hload)
  have hturns : r.remaining < bytes.length + 1 := by
    have hremaining := hreads.remaining
    omega
  exact matches_decompressBlocks hlength hlimit hreads hblocks hturns hlaid

/-- Two blocks that are copied, within as many steps as that takes. -/
theorem decompress_defined_two_blocks :
    Addressable (Routine.copiedStream Routine.copy [[1, 2, 3], []]) ∧ 6 < 1 <<< 64
      ∧ (decompress 6 (Routine.copiedStream Routine.copy [[1, 2, 3], []])).run
        = some (.ok [1, 2, 3]) := by
  have hlength : Addressable (Routine.copiedStream Routine.copy [[1, 2, 3], []]) := by
    unfold Addressable
    decide
  have hlimit : 6 < 1 <<< 64 := by decide
  have hfits : ∀ data ∈ ([[1, 2, 3], []] : List (List Byte)), data.length ≤ Routine.maxCopied := by
    decide
  have hcopies : ∀ data ∈ [[1, 2, 3], []], Routine.Copies Routine.copy (some 6) data :=
    fun data hdata => Routine.copies_copy (hfits data hdata) fun n hn =>
      Nat.le_of_eq (Option.some.inj hn)
  obtain ⟨hrun, -, -⟩ := decompress_defined hlength hlimit
  rw [(Routine.decompress_of_copies hfits (by decide) hcopies).1] at hrun
  exact ⟨hlength, hlimit, hrun⟩

end Checked

end CmStream
