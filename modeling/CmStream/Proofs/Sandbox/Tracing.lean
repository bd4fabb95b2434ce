import CmStream.Progress
import CmStream.Proofs.Machine.Tracing
import CmStream.Proofs.Sandbox.Acceptance

/-!
# What is reported of calls

Decompressing a stream calls the decompressor on one block after the other, up to a block whose
header cannot be read or one that does not do what it declares. What is reported of that is put
together from the events of each call. Where every instruction is asked for, there is one event for
every step that a call has begun; the other events are the same where it is not.
-/

namespace CmStream

namespace Sandbox

open Machine

/-- A call that has been made. -/
structure Call where
  block : Block
  header : BlockHeader
  /-- The machine at the first instruction. -/
  first : Machine
  /-- The number of steps that the run has begun. -/
  begun : Nat
  ending : Except Stop Nat

namespace Call

def last (call : Call) : Machine := call.first.after call.begun

/-- One event for every step begun, with the registers before it. -/
def instructions (call : Call) : List Event :=
  (call.first.registersBefore call.begun).map .instruction

/-- What is reported of a call, with every instruction. -/
def events (call : Call) : List Event :=
  .callBegun call.block.offset call.block.compressedLength call.block.uncompressedLength
      call.header.control
    :: (call.instructions ++ [Progress.ofEnding call.ending, .callEnded call.last.registers])

/-- The call is that of a sandbox on a block, and its run ends under the limit. -/
structure IsOn (limit : Option Nat) (s : Sandbox) (block : Block) (call : Call) : Prop where
  subject : call.block = block
  read : block.header = .ok call.header
  entered : call.first = s.entered block call.header
  ends : EndsAfter limit call.first call.begun call.ending

end Call

/-- The calls that are made on some blocks. -/
inductive Calls (limit : Option Nat) : Sandbox → List Block → List Call → Prop
  | nil (s : Sandbox) : Calls limit s [] []
  | unread {s : Sandbox} {block : Block} {error : FormatError} (rest : List Block)
      (header : block.header = .error error) : Calls limit s (block :: rest) []
  | last {s : Sandbox} {block : Block} {call : Call} {error : ExecutionError} (rest : List Block)
      (made : call.IsOn limit s block)
      (misses : block.Misses call.ending call.last.registers error) :
      Calls limit s (block :: rest) [call]
  | next {s : Sandbox} {block : Block} {rest : List Block} {call : Call} {calls : List Call}
      (made : call.IsOn limit s block) (meets : block.Meets call.ending call.last.registers)
      (later : Calls limit ⟨call.last, s.entry⟩ rest calls) :
      Calls limit s (block :: rest) (call :: calls)

variable {limit : Option Nat} {n larger produced : Nat} {s : Sandbox} {block : Block}
  {header : BlockHeader} {rest blocks : List Block}

/-! ## One call -/

/-- What the run on a block leaves. -/
def ran (n : Nat) (s : Sandbox) (block : Block) (header : BlockHeader) :
    Except Stop Nat × Sandbox :=
  (((s.entered block header).run n).1, ⟨((s.entered block header).run n).2, s.entry⟩)

/-- What is reported of the call on a block whose header has been read. -/
def reported (traced : Bool) (n : Nat) (s : Sandbox) (block : Block) (header : BlockHeader) :
    List Event :=
  let (ending, after) := s.ran n block header
  .callBegun block.offset block.compressedLength block.uncompressedLength header.control
    :: ((if traced then ((s.entered block header).trace n).map .instruction else [])
      ++ [Progress.ofEnding ending, .callEnded after.machine.registers])

theorem runs_ran (hheader : block.header = .ok header) (n : Nat) (s : Sandbox) :
    Runs (some n) s block (s.ran n block header).1 (s.ran n block header).2 where
  run := ⟨header, Block.header_eq_ok_iff.mp hheader, ends_run n _⟩
  entry := rfl

section Reported

variable (hlaid : LaidOut s.machine.memory)
  (hfits : Block.Fits (block.uncompressedLength, block.payload))
  (hheader : block.header = .ok header)

include hlaid

theorem execute_eq (n : Nat) (block : Block) (header : BlockHeader) :
    s.execute n block header = s.ran n block header := by
  unfold execute
  rw [prepare_eq hlaid]
  rfl

theorem ofInstructions_eq (n : Nat) (block : Block) (header : BlockHeader) :
    Progress.ofInstructions n s block header
      = ((s.entered block header).trace n).map .instruction := by
  unfold Progress.ofInstructions
  rw [prepare_eq hlaid]

include hheader

theorem ofBlocks_cons (traced : Bool) (produced : Nat) (rest : List Block) :
    Progress.ofBlocks traced n produced s (block :: rest)
      = match (CallResult.ofEnding (s.ran n block header).1
          (s.ran n block header).2.machine.registers).check block with
        | .error _ => s.reported traced n block header
        | .ok () => s.reported traced n block header
            ++ Progress.ofBlocks traced n (produced + block.uncompressedLength.toNat)
              (s.ran n block header).2 rest := by
  rw [Progress.ofBlocks, hheader]
  dsimp only
  rw [execute_eq hlaid, ofInstructions_eq hlaid]
  rfl

include hfits

theorem ofBlocks_of_meets (traced : Bool) (produced : Nat) (rest : List Block)
    (hmeets : block.Meets (s.ran n block header).1 (s.ran n block header).2.machine.registers) :
    Progress.ofBlocks traced n produced s (block :: rest)
      = s.reported traced n block header
        ++ Progress.ofBlocks traced n (produced + block.uncompressedLength.toNat)
          (s.ran n block header).2 rest := by
  rw [ofBlocks_cons hlaid hheader, Block.check_of_meets hmeets hfits]

theorem ofBlocks_of_misses {error : ExecutionError} (traced : Bool) (produced : Nat)
    (rest : List Block)
    (hmisses : block.Misses (s.ran n block header).1 (s.ran n block header).2.machine.registers
      error) :
    Progress.ofBlocks traced n produced s (block :: rest)
      = s.reported traced n block header := by
  rw [ofBlocks_cons hlaid hheader, Block.check_of_misses hmisses hfits]

end Reported

/-! ## Calls that the limit does not cut short -/

/-- No call on the blocks is cut short by the limit. -/
def Whole (n : Nat) (s : Sandbox) (blocks : List Block) : Prop :=
  ∀ error, s.decompress n blocks = .error error → error.isStepLimit = false

section Whole

variable (hlaid : LaidOut s.machine.memory)
  (hfits : Block.Fits (block.uncompressedLength, block.payload))
  (hheader : block.header = .ok header)

include hlaid hfits hheader

theorem Whole.ending_ne (h : Whole n s (block :: rest)) (steps : Nat) :
    (s.ran n block header).1 ≠ .error (.stepLimit steps) := by
  intro hcut
  have hmisses : block.Misses (.error (.stepLimit steps))
      (s.ran n block header).2.machine.registers _ := .stopped (.stepLimit steps) _
  rw [← hcut] at hmisses
  exact Bool.noConfusion
    (h _ (decompress_cons_of_rejects (.run (runs_ran hheader n s) hmisses) hlaid hfits rest))

theorem Whole.tail (h : Whole n s (block :: rest))
    (hmeets : block.Meets (s.ran n block header).1 (s.ran n block header).2.machine.registers) :
    Whole n (s.ran n block header).2 rest := by
  intro error herror
  refine h error ?_
  rw [decompress_cons_of_accepts ⟨_, runs_ran hheader n s, hmeets⟩ hlaid hfits, herror]
  rfl

end Whole

/-! ## All calls -/

/-- Asking for every instruction adds events and changes none. -/
theorem sublist_ofBlocks (n produced : Nat) (s : Sandbox) (blocks : List Block) :
    (Progress.ofBlocks false n produced s blocks).Sublist
      (Progress.ofBlocks true n produced s blocks) := by
  induction blocks generalizing produced s with
  | nil => exact List.Sublist.refl _
  | cons block rest ih =>
    unfold Progress.ofBlocks
    split
    case h_1 => exact List.Sublist.refl _
    case h_2 header _ =>
      dsimp only
      -- The instructions stand between what begins and what ends a call.
      have hcall : ∀ begun ended, (begun :: (([] : List Event) ++ ended)).Sublist
          (begun :: (Progress.ofInstructions n s block header ++ ended)) := fun begun ended =>
        ((List.nil_sublist _).append_right ended).cons_cons begun
      split
      case h_1 => exact hcall _ _
      case h_2 => exact (hcall _ _).append (ih _ _)

/-- What is reported is the same under every larger limit. -/
theorem ofBlocks_eq_of_le (hlaid : LaidOut s.machine.memory) (hfit : AllFit blocks)
    (hwhole : Whole n s blocks) (hle : n ≤ larger) (traced : Bool) (produced : Nat) :
    Progress.ofBlocks traced larger produced s blocks
      = Progress.ofBlocks traced n produced s blocks := by
  induction blocks generalizing s produced with
  | nil => rfl
  | cons block rest ih =>
    have hfits := hfit _ List.mem_cons_self
    cases hheader : block.header with
    | error error => simp only [Progress.ofBlocks, hheader]
    | ok header =>
      have hends := ends_run n (s.entered block header)
      have hown := hwhole.ending_ne hlaid hfits hheader
      -- The first call comes to the same, and so does what is reported of it.
      have hrun : (s.entered block header).run larger = (s.entered block header).run n := by
        refine run_of_ends (hends.mono hown ?_)
        rintro _ ⟨⟩
        exact hle
      have hran : s.ran larger block header = s.ran n block header := by
        unfold ran
        rw [hrun]
      have hreported : s.reported traced larger block header
          = s.reported traced n block header := by
        unfold reported
        rw [hran, hends.trace_eq_of_le hown hle]
      rcases Block.meets_or_misses block (s.ran n block header).1
        (s.ran n block header).2.machine.registers with hmeets | ⟨error, hmisses⟩
      · have hafter := (runs_ran hheader n s).laidOut hlaid
        rw [ofBlocks_of_meets hlaid hfits hheader _ _ _ hmeets,
          ofBlocks_of_meets hlaid hfits hheader _ _ _ (hran.symm ▸ hmeets), hreported, hran,
          ih hafter hfit.tail (hwhole.tail hlaid hfits hheader hmeets)]
      · rw [ofBlocks_of_misses hlaid hfits hheader _ _ _ hmisses,
          ofBlocks_of_misses hlaid hfits hheader _ _ _ (hran.symm ▸ hmisses), hreported]

/-- The call on a block whose header has been read, with what is reported of it. -/
theorem exists_call (hheader : block.header = .ok header)
    (hlimit : ∀ n', limit = some n' → n' = n)
    (hown : limit = none → ∀ steps, (s.ran n block header).1 ≠ .error (.stepLimit steps)) :
    ∃ call : Call, call.IsOn limit s block ∧ call.ending = (s.ran n block header).1
      ∧ call.last = (s.ran n block header).2.machine
      ∧ s.reported true n block header = call.events := by
  obtain ⟨k, hends, hlast, htrace⟩ :=
    (ends_run n (s.entered block header)).exists_endsAfter hlimit hown
  refine ⟨⟨block, header, s.entered block header, k, (s.ran n block header).1⟩,
    ⟨rfl, hheader, rfl, hends⟩, rfl, hlast.symm, ?_⟩
  unfold reported Call.events Call.instructions Call.last ran
  dsimp only
  rw [if_pos rfl, htrace, hlast]

theorem exists_calls_ofBlocks (hlaid : LaidOut s.machine.memory) (hfit : AllFit blocks)
    (hlimit : ∀ n', limit = some n' → n' = n) (hwhole : limit = none → Whole n s blocks)
    (produced : Nat) :
    ∃ calls tail, Calls limit s blocks calls
      ∧ tail.Sublist [.finished (produced + declaredLength blocks)]
      ∧ Progress.ofBlocks true n produced s blocks = calls.flatMap Call.events ++ tail := by
  -- By induction on the blocks: each call leaves the sandbox to the next one.
  induction blocks generalizing s produced with
  | nil => exact ⟨[], _, .nil s, List.Sublist.refl _, rfl⟩
  | cons block rest ih =>
    have hfits := hfit _ List.mem_cons_self
    cases hheader : block.header with
    | error error =>
      refine ⟨[], [], .unread rest hheader, List.nil_sublist _, ?_⟩
      rw [Progress.ofBlocks, hheader]
      rfl
    | ok header =>
      obtain ⟨call, hmade, hending, hlast, hevents⟩ := exists_call hheader hlimit fun hnone =>
        (hwhole hnone).ending_ne hlaid hfits hheader
      rcases Block.meets_or_misses block (s.ran n block header).1
        (s.ran n block header).2.machine.registers with hmeets | ⟨error, hmisses⟩
      · have hafter := (runs_ran hheader n s).laidOut hlaid
        obtain ⟨calls, tail, hcalls, htail, hrest⟩ := ih hafter hfit.tail
          (fun hnone => (hwhole hnone).tail hlaid hfits hheader hmeets)
          (produced + block.uncompressedLength.toNat)
        refine ⟨call :: calls, tail, .next hmade ?_ ?_, ?_, ?_⟩
        · rw [hending, hlast]
          exact hmeets
        · rw [hlast]
          exact hcalls
        · rw [declaredLength, ← Nat.add_assoc]
          exact htail
        · rw [ofBlocks_of_meets hlaid hfits hheader _ _ _ hmeets, hrest, hevents,
            List.flatMap_cons, List.append_assoc]
      · have hfails : block.Misses call.ending call.last.registers error := by
          rw [hending, hlast]
          exact hmisses
        refine ⟨[call], [], .last rest hmade hfails, List.nil_sublist _, ?_⟩
        · rw [ofBlocks_of_misses hlaid hfits hheader _ _ _ hmisses, hevents, List.flatMap_singleton,
            List.append_nil]

end Sandbox

/-! ## Streams -/

namespace Progress

variable {limit : Option Nat} {n larger : Nat} {bytes : List Byte} {container : Container}
  {s : Sandbox}

theorem ofDecompression_of_load (hparse : Container.parse bytes = .ok container)
    (hload : Sandbox.load container.image = .ok s) (traced : Bool) (n : Nat) :
    ofDecompression traced n bytes
      = ofParsing bytes ++ .imageLoaded container.image.paragraphs container.image.entry
        :: ofBlocks traced n 0 s container.blocks := by
  unfold ofDecompression ofContainer
  rw [hparse]
  dsimp only
  rw [hload]

theorem sublist_ofDecompression (n : Nat) (bytes : List Byte) :
    (ofDecompression false n bytes).Sublist (ofDecompression true n bytes) := by
  refine (List.Sublist.refl _).append ?_
  cases Container.parse bytes with
  | error error => exact List.Sublist.refl _
  | ok container =>
    refine List.Sublist.cons_cons _ ?_
    cases Sandbox.load container.image with
    | error error => exact List.Sublist.refl _
    | ok s => exact Sandbox.sublist_ofBlocks n 0 s container.blocks

/-- What is reported of a stream is the same under every larger limit, if none of its blocks is cut
short. -/
theorem ofDecompression_eq_of_le
    (hwhole : ∀ error, decompress n bytes = .error error → error.isStepLimit = false)
    (hle : n ≤ larger) (traced : Bool) :
    ofDecompression traced larger bytes = ofDecompression traced n bytes := by
  cases hparse : Container.parse bytes with
  | error error =>
    unfold ofDecompression
    rw [hparse]
  | ok container =>
    cases hload : Sandbox.load container.image with
    | error error =>
      unfold ofDecompression ofContainer
      rw [hparse]
      dsimp only
      rw [hload]
    | ok s =>
      rw [decompress_of_load hparse hload] at hwhole
      rw [ofDecompression_of_load hparse hload, ofDecompression_of_load hparse hload,
        Sandbox.ofBlocks_eq_of_le (laidOut_of_load hload) (allFit_of_parse hparse) hwhole hle]

/-- Behind what is reported of the image, there is what is reported of the calls, and at the end
perhaps the length of the output. -/
theorem exists_calls_ofDecompression (hparse : Container.parse bytes = .ok container)
    (hload : Sandbox.load container.image = .ok s) (hlimit : ∀ n', limit = some n' → n' = n)
    (hwhole : limit = none →
      ∀ error, decompress n bytes = .error error → error.isStepLimit = false) :
    ∃ calls tail, Sandbox.Calls limit s container.blocks calls
      ∧ tail.Sublist [.finished (Sandbox.declaredLength container.blocks)]
      ∧ ofDecompression true n bytes
        = ofParsing bytes ++ .imageLoaded container.image.paragraphs container.image.entry
          :: (calls.flatMap Sandbox.Call.events ++ tail) := by
  rw [decompress_of_load hparse hload] at hwhole
  obtain ⟨calls, tail, hcalls, htail, hblocks⟩ := Sandbox.exists_calls_ofBlocks
    (laidOut_of_load hload) (allFit_of_parse hparse) hlimit hwhole 0
  rw [Nat.zero_add] at htail
  exact ⟨calls, tail, hcalls, htail, by rw [ofDecompression_of_load hparse hload, hblocks]⟩

end Progress

end CmStream
