import CmStream.Decompression
import CmStream.Proofs.Container.Grammar
import CmStream.Proofs.Machine.Confinement
import CmStream.Proofs.Machine.Halting
import CmStream.Proofs.Sandbox.Entry

/-!
# How the call of a block comes out

A block is accepted if its payload begins with a header and the run on it comes back to the
halting instruction with the carry clear and both lengths right; otherwise it is rejected for the
first of these that fails. With a limit there is always one of the two, and it is what
`Sandbox.call` and `CallResult.check` find.
-/

namespace CmStream

namespace Block

variable {block : Block} {ending : Except Stop Nat} {r : Registers} {error : ExecutionError}

/-! ## What a block asks of the run on it -/

/-- The run has halted where it should. -/
def Returned (ending : Except Stop Nat) (r : Registers) : Prop :=
  (∃ steps, ending = .ok steps) ∧ r.codePointer = Sandbox.expectedHalt

/-- The source index has passed the payload, or the payload and one byte more. -/
def Consumed (block : Block) (r : Registers) : Prop :=
  r.si.toNat = block.payload.length ∨ r.si.toNat = block.payload.length + 1

/-- The run has come back and has done what the block declares. -/
structure Meets (block : Block) (ending : Except Stop Nat) (r : Registers) : Prop where
  returned : Returned ending r
  carry : r.flag .carry = false
  consumed : block.Consumed r
  produced : r.di = block.uncompressedLength

/-- What is wrong with a run: the first thing that fails, in the order of the constructors. -/
inductive Misses (block : Block) : Except Stop Nat → Registers → ExecutionError → Prop
  | stopped (stop : Stop) (r : Registers) :
      Misses block (.error stop) r (.unexpectedHalt r.codePointer (some stop))
  | elsewhere {steps : Nat} {r : Registers} (place : r.codePointer ≠ Sandbox.expectedHalt) :
      Misses block (.ok steps) r (.unexpectedHalt r.codePointer none)
  | failed {ending : Except Stop Nat} {r : Registers} (returned : Returned ending r)
      (carry : r.flag .carry = true) : Misses block ending r .decompressionFailed
  | consumed {ending : Except Stop Nat} {r : Registers} (returned : Returned ending r)
      (carry : r.flag .carry = false) (consumed : ¬ block.Consumed r) :
      Misses block ending r (.lengthMismatch .consumed block.compressedLength r.si)
  | produced {ending : Except Stop Nat} {r : Registers} (returned : Returned ending r)
      (carry : r.flag .carry = false) (consumed : block.Consumed r)
      (produced : r.di ≠ block.uncompressedLength) :
      Misses block ending r (.lengthMismatch .produced block.uncompressedLength r.di)

theorem meets_or_misses (block : Block) (ending : Except Stop Nat) (r : Registers) :
    block.Meets ending r ∨ ∃ error, block.Misses ending r error := by
  cases ending with
  | error stop => exact .inr ⟨_, .stopped stop r⟩
  | ok steps =>
    by_cases hplace : r.codePointer = Sandbox.expectedHalt
    · have hreturned : Returned (.ok steps) r := ⟨⟨steps, rfl⟩, hplace⟩
      cases hcarry : r.flag .carry with
      | true => exact .inr ⟨_, .failed hreturned hcarry⟩
      | false =>
        by_cases hconsumed : block.Consumed r
        · by_cases hproduced : r.di = block.uncompressedLength
          · exact .inl ⟨hreturned, hcarry, hconsumed, hproduced⟩
          · exact .inr ⟨_, .produced hreturned hcarry hconsumed hproduced⟩
        · exact .inr ⟨_, .consumed hreturned hcarry hconsumed⟩
    · exact .inr ⟨_, .elsewhere hplace⟩

/-! ## What the check finds -/

theorem compressedLength_toNat (hfits : Fits (block.uncompressedLength, block.payload)) :
    block.compressedLength.toNat = block.payload.length :=
  Word.toNat_ofNat_of_lt (Nat.lt_succ_of_le hfits.2)

/-- The consumed length is judged by its number, although the check compares words first. -/
theorem consumed_iff (hfits : Fits (block.uncompressedLength, block.payload)) :
    block.Consumed r
      ↔ ¬ (r.si ≠ block.compressedLength ∧ r.si.toNat ≠ block.compressedLength.toNat + 1) := by
  have hlength := compressedLength_toNat hfits
  unfold Consumed
  rw [← hlength, BitVec.toNat_inj, Decidable.not_and_iff_not_or_not, Decidable.not_not,
    Decidable.not_not]

/-- Behind a run that has come back, the check goes on to the carry and the lengths. -/
theorem check_of_returned (h : Returned ending r) :
    (CallResult.ofEnding ending r).check block
      = if r.flag .carry then .error .decompressionFailed
        else if r.si ≠ block.compressedLength ∧ r.si.toNat ≠ block.compressedLength.toNat + 1 then
          .error (.lengthMismatch .consumed block.compressedLength r.si)
        else if r.di ≠ block.uncompressedLength then
          .error (.lengthMismatch .produced block.uncompressedLength r.di)
        else .ok () := by
  obtain ⟨⟨steps, rfl⟩, hplace⟩ := h
  have hhere : ¬ decide (r.codePointer ≠ Sandbox.expectedHalt) = true := by
    rw [decide_eq_true_eq]
    exact not_not_intro hplace
  unfold CallResult.check CallResult.ofEnding
  exact if_neg hhere

theorem check_of_meets (h : block.Meets ending r)
    (hfits : Fits (block.uncompressedLength, block.payload)) :
    (CallResult.ofEnding ending r).check block = .ok () := by
  rw [check_of_returned h.returned, h.carry, if_neg Bool.false_ne_true,
    if_neg ((consumed_iff hfits).mp h.consumed), if_neg (not_not_intro h.produced)]

theorem check_of_misses (h : block.Misses ending r error)
    (hfits : Fits (block.uncompressedLength, block.payload)) :
    (CallResult.ofEnding ending r).check block = .error error := by
  cases h with
  | stopped stop r => rfl
  | elsewhere place => exact if_pos (decide_eq_true place)
  | failed returned carry => rw [check_of_returned returned, carry, if_pos rfl]
  | consumed returned carry consumed =>
    rw [consumed_iff hfits, Decidable.not_not] at consumed
    rw [check_of_returned returned, carry, if_neg Bool.false_ne_true, if_pos consumed]
  | produced returned carry consumed produced =>
    rw [check_of_returned returned, carry, if_neg Bool.false_ne_true,
      if_neg ((consumed_iff hfits).mp consumed), if_pos produced]

end Block

namespace Sandbox

variable {limit : Option Nat} {n : Nat} {s after : Sandbox} {block : Block} {error : Error}
  {ending : Except Stop Nat}

/-! ## Runs of a block -/

/-- The run on a block that begins with a header, from its first instruction to its end. -/
structure Runs (limit : Option Nat) (s : Sandbox) (block : Block) (ending : Except Stop Nat)
    (after : Sandbox) : Prop where
  run : ∃ header : BlockHeader, header.bytes <+: block.payload
    ∧ (s.entered block header).Ends limit ending after.machine
  entry : after.entry = s.entry

/-- The run on a block ends as the block asks. -/
def Accepts (limit : Option Nat) (s : Sandbox) (block : Block) (after : Sandbox) : Prop :=
  ∃ ending, Runs limit s block ending after ∧ block.Meets ending after.machine.registers

/-- The header of a block cannot be read, or the run on it does not end as the block asks. -/
inductive Rejects (limit : Option Nat) (s : Sandbox) (block : Block) : Error → Prop
  | header {error : FormatError} (unread : block.header = .error error) :
      Rejects limit s block (.format error)
  | run {ending : Except Stop Nat} {after : Sandbox} {error : ExecutionError}
      (runs : Runs limit s block ending after)
      (misses : block.Misses ending after.machine.registers error) :
      Rejects limit s block (.execution block.offset error)

/-- One of the two happens to every block. -/
theorem accepts_or_rejects (n : Nat) (s : Sandbox) (block : Block) :
    (∃ after, Accepts (some n) s block after) ∨ ∃ error, Rejects (some n) s block error := by
  cases hheader : block.header with
  | error error => exact .inr ⟨_, .header hheader⟩
  | ok header =>
    have hruns : Runs (some n) s block ((s.entered block header).run n).1
        ⟨((s.entered block header).run n).2, s.entry⟩ :=
      ⟨⟨header, Block.header_eq_ok_iff.mp hheader, Machine.ends_run n _⟩, rfl⟩
    rcases Block.meets_or_misses block _ _ with hmeets | ⟨error, hmisses⟩
    · exact .inl ⟨_, _, hruns, hmeets⟩
    · exact .inr ⟨_, .run hruns hmisses⟩

theorem call_of_runs (h : Runs (some n) s block ending after) (hlaid : LaidOut s.machine.memory) :
    s.call n block = (.ok (CallResult.ofEnding ending after.machine.registers), after) := by
  obtain ⟨⟨header, hprefix, hends⟩, hentry⟩ := h
  obtain ⟨machine, entry⟩ := after
  dsimp only at hends hentry
  subst hentry
  unfold call execute
  rw [Block.header_eq_ok_iff.mpr hprefix]
  dsimp only
  rw [prepare_eq hlaid]
  dsimp only
  rw [Machine.run_of_ends hends]

theorem decompress_cons_of_accepts (h : Accepts (some n) s block after)
    (hlaid : LaidOut s.machine.memory)
    (hfits : Block.Fits (block.uncompressedLength, block.payload)) (rest : List Block) :
    s.decompress n (block :: rest)
      = (after.decompress n rest).map (after.output block.uncompressedLength ++ ·) := by
  obtain ⟨ending, hruns, hmeets⟩ := h
  rw [Sandbox.decompress, call_of_runs hruns hlaid]
  dsimp only
  rw [Block.check_of_meets hmeets hfits]

theorem decompress_cons_of_rejects (h : Rejects (some n) s block error)
    (hlaid : LaidOut s.machine.memory)
    (hfits : Block.Fits (block.uncompressedLength, block.payload)) (rest : List Block) :
    s.decompress n (block :: rest) = .error error := by
  rw [Sandbox.decompress]
  cases h with
  | header unread =>
    unfold call
    rw [unread]
  | run runs misses =>
    rw [call_of_runs runs hlaid]
    dsimp only
    rw [Block.check_of_misses misses hfits]

/-! ## Memory after a run -/

/-- The layout outlasts every run. -/
theorem Runs.laidOut (h : Runs limit s block ending after) (hlaid : LaidOut s.machine.memory) :
    LaidOut after.machine.memory := by
  obtain ⟨header, -, hends⟩ := h.run
  obtain ⟨k, hafter⟩ := hends.exists_after
  rw [hafter]
  exact (laidOut_entered hlaid block header).of_sameShape (Machine.sameShape_after k _)

theorem Accepts.laidOut (h : Accepts limit s block after) (hlaid : LaidOut s.machine.memory) :
    LaidOut after.machine.memory := by
  obtain ⟨ending, hruns, -⟩ := h
  exact hruns.laidOut hlaid

/-- A run that comes back has fetched the halting instruction at the foot of memory, and leaves
it there. -/
theorem Accepts.read_zero (h : Accepts limit s block after) (hlaid : LaidOut s.machine.memory)
    (access : Access) : after.machine.memory.read access 0 = .ok haltingByte := by
  have hafter := h.laidOut hlaid
  obtain ⟨ending, ⟨⟨header, -, hends⟩, -⟩, ⟨⟨steps, rfl⟩, hplace⟩, -, -, -⟩ := h
  have hfetched : after.machine.memory.read .execute 0 = .ok haltingByte := by
    generalize after.machine = last at hends hplace ⊢
    cases hends with
    | @halted _ k granted continues halt =>
      -- The opcode lies just in front of where the machine has halted, which is address zero.
      obtain ⟨hmemory, hread⟩ := Machine.read_halt_of_step halt
      rw [← Machine.after_succ] at hmemory hread
      rw [← hmemory] at hread
      obtain ⟨hcs, hip⟩ := FarPointer.mk.inj hplace
      rw [hcs, hip] at hread
      exact hread
  have hzero : 0 < 3 * segmentSize := by decide
  rw [hafter.read_eq_ok .execute hzero] at hfetched
  rw [hafter.read_eq_ok access hzero]
  exact hfetched

/-- The output of a block is as long as the block declares. -/
theorem length_output (h : LaidOut s.machine.memory) (length : Word) :
    (s.output length).length = length.toNat := by
  have hsize := h.length outputRegion (by decide)
  have hlt := length.isLt
  unfold output PagedMemory.peek
  rw [Array.length_toList, Array.size_extract, hsize]
  simp only [segmentSize]
  omega

/-! ## Limits -/

/-- What a run that the limit has not cut short comes to is the same under a larger limit and
without one. -/
theorem Runs.mono {larger : Option Nat} (h : Runs (some n) s block ending after)
    (hown : ∀ steps, ending ≠ .error (.stepLimit steps)) (hle : ∀ n', larger = some n' → n ≤ n') :
    Runs larger s block ending after := by
  obtain ⟨⟨header, hprefix, hends⟩, hentry⟩ := h
  exact ⟨⟨header, hprefix, hends.mono hown hle⟩, hentry⟩

theorem Accepts.mono {larger : Option Nat} (h : Accepts (some n) s block after)
    (hle : ∀ n', larger = some n' → n ≤ n') : Accepts larger s block after := by
  obtain ⟨ending, hruns, hmeets⟩ := h
  -- A run that is accepted has halted, so no limit has cut it short.
  refine ⟨ending, hruns.mono ?_ hle, hmeets⟩
  rintro limit rfl
  obtain ⟨⟨steps, hsteps⟩, -⟩ := hmeets.returned
  cases hsteps

theorem Rejects.mono {larger : Option Nat} (h : Rejects (some n) s block error)
    (hown : error.isStepLimit = false) (hle : ∀ n', larger = some n' → n ≤ n') :
    Rejects larger s block error := by
  cases h with
  | header unread => exact .header unread
  | run runs misses =>
    refine .run (runs.mono ?_ hle) misses
    rintro limit rfl
    cases misses with
    | stopped => exact Bool.noConfusion hown
    | failed returned | consumed returned | produced returned =>
      obtain ⟨⟨steps, hsteps⟩, -⟩ := returned
      cases hsteps

/-- A run that ends without a limit needs only so many steps. -/
theorem Runs.exists_limit (h : Runs none s block ending after) :
    ∃ n, ∀ n', n ≤ n' → Runs (some n') s block ending after := by
  obtain ⟨⟨header, hprefix, hends⟩, hentry⟩ := h
  obtain ⟨n, hn⟩ := hends.exists_limit
  exact ⟨n, fun n' hle => ⟨⟨header, hprefix, hn n' hle⟩, hentry⟩⟩

theorem Accepts.exists_limit (h : Accepts none s block after) :
    ∃ n, ∀ n', n ≤ n' → Accepts (some n') s block after := by
  obtain ⟨ending, hruns, hmeets⟩ := h
  obtain ⟨n, hn⟩ := hruns.exists_limit
  exact ⟨n, fun n' hle => ⟨ending, hn n' hle, hmeets⟩⟩

theorem Rejects.exists_limit (h : Rejects none s block error) :
    ∃ n, ∀ n', n ≤ n' → Rejects (some n') s block error := by
  cases h with
  | header unread => exact ⟨0, fun _ _ => .header unread⟩
  | run runs misses =>
    obtain ⟨n, hn⟩ := runs.exists_limit
    exact ⟨n, fun n' hle => .run (hn n' hle) misses⟩

/-- Without a limit no block is rejected for want of steps. -/
theorem Rejects.isStepLimit_eq_false (h : Rejects none s block error) :
    error.isStepLimit = false := by
  cases h with
  | header => rfl
  | run runs misses =>
    obtain ⟨header, -, hends⟩ := runs.run
    cases misses with
    | elsewhere | failed | consumed | produced => rfl
    | stopped stop =>
      cases stop with
      | gaveUp place cause => rfl
      | stepLimit steps => exact absurd rfl (hends.ne_stepLimit steps)

end Sandbox

end CmStream
