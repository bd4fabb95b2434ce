import CmStream.Proofs.Sandbox.Limits
import Mathlib.Algebra.Order.Floor.Div

/-!
# Every block is entered in a clean state

A call sets every register, the return address and the payload, and leaves the rest of memory to
the decompressor. Nothing that a program has done in earlier calls can make this fail, because no
program changes the layout of memory; and of what it has left nothing but memory reaches the next
call. A block without a header is passed over and leaves no trace.
-/

namespace CmStream

namespace Sandbox

variable {limit : Option Nat} {image : Image} {s s' after : Sandbox} {block : Block}
  {blocks : List Block} {header : BlockHeader} {called : Except FormatError CallResult}
  {results : List (Except FormatError CallResult)}

/-- A sandbox for an image, after calls on any blocks. -/
def Reached (limit : Option Nat) (image : Image) (s : Sandbox) : Prop :=
  ∃ first blocks results, load image = .ok first
    ∧ first.callAllWith limit blocks = some (results, s)

/-- The machine at the first instruction of the call on a block: registers and return address as
they are agreed on, the payload where it belongs, and the rest of memory as it was before. -/
structure CleanEntry (entry : Word) (block : Block) (header : BlockHeader)
    (before : PagedMemory) (m : Machine) : Prop where
  registers : m.registers =
    { cs := 0x0010, ip := entry, ds := 0x1000, si := 0x0006, es := 0x2000, di := 0x0000
      ax := header.control, bx := 1, cx := BitVec.ofNat 16 (block.uncompressedLength.toNat ⌈/⌉ 512)
      dx := 0, bp := 0, ss := 0x0000, sp := 0x00fc, flags := 0x0002 }
  units : m.registers.cx.toNat = block.uncompressedLength.toNat ⌈/⌉ 512
  shape : before.SameShape m.memory
  returnAddress : ∀ access address, 0x00fc ≤ address → address < 0x0100 →
    m.memory.read access address = .ok 0
  payload : ∀ access i, (hi : i < block.payload.length) →
    m.memory.read access (0x10000 + i) = .ok block.payload[i]
  elsewhere : ∀ access address, ¬ (0x00fc ≤ address ∧ address < 0x0100) →
    ¬ (0x10000 ≤ address ∧ address < 0x10000 + block.payload.length) →
    m.memory.read access address = before.read access address

/-! ## The layout outlasts every call -/

theorem executeWith_eq (hlaid : LaidOut s.machine.memory) (limit : Option Nat) (block : Block)
    (header : BlockHeader) :
    s.executeWith limit block header
      = ((s.entered block header).runWith limit).map fun (ending, last) =>
        (ending, ⟨last, s.entry⟩) := by
  unfold executeWith
  rw [prepare_eq hlaid]

theorem laidOut_of_callWith (hlaid : LaidOut s.machine.memory)
    (h : s.callWith limit block = some (called, after)) :
    LaidOut after.machine.memory ∧ after.entry = s.entry := by
  unfold callWith at h
  cases hheader : block.header with
  | error error =>
    rw [hheader] at h
    cases h
    exact ⟨hlaid, rfl⟩
  | ok header =>
    rw [hheader] at h
    dsimp only at h
    rw [executeWith_eq hlaid, Option.map_map] at h
    obtain ⟨⟨ending, last⟩, hrun, hlast⟩ := Option.map_eq_some_iff.mp h
    cases hlast
    -- Wherever the run has ended, also in the middle of an instruction, its steps keep the shape.
    obtain ⟨k, rfl⟩ := (Machine.runWith_eq_some_iff.mp hrun).exists_after
    have hentered := laidOut_entered hlaid block header
    exact ⟨hentered.of_sameShape (Machine.sameShape_after k _), rfl⟩

theorem laidOut_of_callAllWith (hlaid : LaidOut s.machine.memory)
    (h : s.callAllWith limit blocks = some (results, after)) :
    LaidOut after.machine.memory ∧ after.entry = s.entry := by
  induction blocks generalizing s results with
  | nil =>
    cases h
    exact ⟨hlaid, rfl⟩
  | cons block rest ih =>
    obtain ⟨⟨called, between⟩, hcall, hrest⟩ := Option.bind_eq_some_iff.mp h
    obtain ⟨⟨later, last⟩, hlater, hlast⟩ := Option.map_eq_some_iff.mp hrest
    cases hlast
    obtain ⟨hbetween, hentry⟩ := laidOut_of_callWith hlaid hcall
    obtain ⟨hlast, hsame⟩ := ih hbetween hlater
    exact ⟨hlast, hsame.trans hentry⟩

theorem eq_initial_of_load (h : load image = .ok s) : s = initial image := by
  rcases Nat.lt_or_ge codeSpace image.code.length with hlong | hshort
  · rw [load_eq_error hlong] at h
    cases h
  · rw [load_eq_ok hshort] at h
    exact (Except.ok.inj h).symm

theorem Reached.laidOut (h : Reached limit image s) :
    LaidOut s.machine.memory ∧ s.entry = image.entry := by
  obtain ⟨first, blocks, results, hload, hcalls⟩ := h
  obtain rfl := eq_initial_of_load hload
  exact laidOut_of_callAllWith (laidOut_initialMemory image.code) hcalls

/-! ## The machine at the first instruction -/

theorem entryRegisters_eq (entry control uncompressedLength : Word) :
    entryRegisters entry control uncompressedLength =
      { cs := 0x0010, ip := entry, ds := 0x1000, si := 0x0006, es := 0x2000, di := 0x0000
        ax := control, bx := 1, cx := BitVec.ofNat 16 (uncompressedLength.toNat ⌈/⌉ 512)
        dx := 0, bp := 0, ss := 0x0000, sp := 0x00fc, flags := 0x0002 } := by
  rw [Nat.ceilDiv_eq_add_pred_div]
  rfl

/-- There are not as many units of output as a word can count. -/
theorem toNat_units (uncompressedLength : Word) :
    (BitVec.ofNat 16 (uncompressedLength.toNat ⌈/⌉ 512)).toNat
      = uncompressedLength.toNat ⌈/⌉ 512 := by
  have hlt := uncompressedLength.isLt
  rw [Nat.ceilDiv_eq_add_pred_div]
  exact Word.toNat_ofNat_of_lt (by omega)

/-- Whatever a sandbox holds, the call on a block is entered in a clean state. -/
theorem cleanEntry_entered (hlaid : LaidOut s.machine.memory)
    (hfits : block.payload.length ≤ segmentSize) (header : BlockHeader) :
    CleanEntry s.entry block header s.machine.memory (s.entered block header) where
  registers := entryRegisters_eq _ _ _
  units := by
    rw [← toNat_units]
    exact congrArg (fun r => r.cx.toNat) (entryRegisters_eq s.entry header.control _)
  shape := sameShape_entered s block header
  returnAddress access address hlower hupper := by
    obtain ⟨i, rfl⟩ := Nat.exists_eq_add_of_le hlower
    have hi : i < 4 := by omega
    have haddress : 0x00fc + i = codeRegion * segmentSize + (returnSlot.toNat + i) :=
      (Nat.zero_add _).symm
    have hinside : returnSlot.toNat + i < segmentSize := by
      show 0x00fc + i < 0x10000
      omega
    rw [haddress, (laidOut_entered hlaid block header).read_offset access (by decide) hinside,
      byteAt_entered_return hlaid hi]
  payload access i hi := by
    have hinside : i < segmentSize := Nat.lt_of_lt_of_le hi hfits
    have haddress : 0x10000 + i = inputRegion * segmentSize + i := rfl
    rw [haddress, (laidOut_entered hlaid block header).read_offset access (by decide) hinside,
      byteAt_entered_input hlaid hfits hi]
  elsewhere access address hreturn hpayload := by
    have hentered := laidOut_entered hlaid block header
    rcases Nat.lt_or_ge address (3 * segmentSize) with hbelow | habove
    · rw [hentered.read_eq_ok access hbelow, hlaid.read_eq_ok access hbelow,
        byteAt_entered_of_outside]
      · intro hregion
        have hfirst : address / 0x10000 = 0 := hregion
        show address % 0x10000 < 0x00fc ∨ 0x00fc + 4 ≤ address % 0x10000
        omega
      · intro hregion
        have hsecond : address / 0x10000 = 1 := hregion
        show block.payload.length ≤ address % 0x10000
        omega
    · unfold PagedMemory.read
      rw [hentered.locate_eq_error access habove, hlaid.locate_eq_error access habove]
      rfl

theorem callWith_of_header (hlaid : LaidOut s.machine.memory) (limit : Option Nat)
    (hheader : block.header = .ok header) :
    s.callWith limit block = ((s.entered block header).runWith limit).map fun (ending, last) =>
      (.ok (CallResult.ofEnding ending last.registers), ⟨last, s.entry⟩) := by
  unfold callWith
  rw [hheader]
  dsimp only
  rw [executeWith_eq hlaid, Option.map_map]
  rfl

theorem callWith_of_header_error {error : FormatError} (limit : Option Nat) (s : Sandbox)
    (hheader : block.header = .error error) :
    s.callWith limit block = some (.error error, s) := by
  unfold callWith
  rw [hheader]

/-! ## Leftover registers -/

/-- The registers that a call finds are replaced before anything looks at them. -/
theorem prepare_congr (hmemory : s.machine.memory = s'.machine.memory)
    (hentry : s.entry = s'.entry) (block : Block) (header : BlockHeader) :
    s.prepare block header = s'.prepare block header := by
  unfold prepare
  rw [hmemory, hentry]
  rfl

theorem callWith_congr (hmemory : s.machine.memory = s'.machine.memory)
    (hentry : s.entry = s'.entry) (limit : Option Nat) (hheader : block.header = .ok header) :
    s.callWith limit block = s'.callWith limit block := by
  unfold callWith executeWith
  rw [hheader]
  dsimp only
  rw [prepare_congr hmemory hentry, hentry]

/-- What sandboxes with the same memory make of blocks, and the memory that they leave. -/
theorem callAllWith_congr (hmemory : s.machine.memory = s'.machine.memory)
    (hentry : s.entry = s'.entry) (limit : Option Nat) (blocks : List Block) :
    (s.callAllWith limit blocks).map (Prod.map id (·.machine.memory))
      = (s'.callAllWith limit blocks).map (Prod.map id (·.machine.memory)) := by
  induction blocks generalizing s s' with
  | nil =>
    show some ([], s.machine.memory) = some ([], s'.machine.memory)
    rw [hmemory]
  | cons block rest ih =>
    unfold callAllWith
    cases hheader : block.header with
    | ok header => rw [callWith_congr hmemory hentry limit hheader]
    | error error =>
      -- The block is passed over, and the registers stay as different as they were.
      have hlater := congrArg (Option.map (Prod.map (List.cons (.error error)) id))
        (ih hmemory hentry)
      rw [callWith_of_header_error limit s hheader, callWith_of_header_error limit s' hheader,
        Option.bind_some, Option.bind_some]
      rw [Option.map_map, Option.map_map] at hlater ⊢
      exact hlater

/-- Every block is entered in a clean state. Behind calls on any blocks, whatever has come of them,
a block without a header changes nothing, and the call on a block with one is entered without fail
and runs from a machine as it has been agreed on. So a sandbox with other registers and the same
memory makes the same of every block. -/
theorem calls_enter_clean :
    (∀ limit image s, Reached limit image s → ∀ block : Block,
        block.payload.length ≤ segmentSize →
        (∀ error, block.header = .error error →
            s.callWith limit block = some (.error error, s)
              ∧ ∀ later, s.callAllWith limit (block :: later)
                = (s.callAllWith limit later).map fun (results, last) =>
                  (.error error :: results, last))
          ∧ ∀ header, block.header = .ok header → ∃ first,
              s.prepare block header = (.ok (), first)
                ∧ CleanEntry image.entry block header s.machine.memory first
                ∧ s.callWith limit block = (first.runWith limit).map fun (ending, last) =>
                  (.ok (CallResult.ofEnding ending last.registers), ⟨last, s.entry⟩))
      ∧ ∀ (limit : Option Nat) (s s' : Sandbox), s.machine.memory = s'.machine.memory →
          s.entry = s'.entry → ∀ blocks,
          (s.callAllWith limit blocks).map (Prod.map id (·.machine.memory))
            = (s'.callAllWith limit blocks).map (Prod.map id (·.machine.memory)) := by
  constructor
  · intro limit image s hreached block hfits
    obtain ⟨hlaid, hentry⟩ := hreached.laidOut
    refine ⟨fun error hheader => ⟨?_, fun later => ?_⟩, fun header hheader => ?_⟩
    · exact callWith_of_header_error limit s hheader
    · rw [callAllWith, callWith_of_header_error limit s hheader]
      rfl
    · rw [← hentry]
      exact ⟨s.entered block header, prepare_eq hlaid block header,
        cleanEntry_entered hlaid hfits header, callWith_of_header hlaid limit hheader⟩
  · intro limit s s' hmemory hentry blocks
    exact callAllWith_congr hmemory hentry limit blocks

/-- An image that counts up until it is cut short. -/
def counter : Image := ⟨0, 6, 1, List.replicate 16 0x40⟩

/-- A block that declares one byte more than a unit of output. -/
def counted : Block := ⟨2, 513, Block.payloadOf 7 [1]⟩

/-- The sandbox behind a call. -/
def behind (n : Nat) (s : Sandbox) (block : Block) : Sandbox := (s.call n block).2

/-- The sandbox behind a call that has been cut short. -/
def cut : Sandbox := behind 5 (initial counter) counted

/-- A sandbox for the counter with something in its registers. -/
def holding (r : Registers) : Sandbox := ⟨⟨r, initialMemory counter.code⟩, counter.entry⟩

theorem memory_holding (r r' : Registers) :
    (holding r).machine.memory = (holding r').machine.memory := rfl

theorem reached_behind (hload : load image = .ok s) (n : Nat) (block : Block) :
    Reached (some n) image (behind n s block) := by
  refine ⟨s, [block], [(s.call n block).1], hload, ?_⟩
  rw [callAllWith, callWith_some]
  rfl

/-- Behind a call that has been cut short, a block without a header leaves no trace, and one with a
header finds the units of output rounded up; something in a register makes no difference. -/
theorem calls_enter_clean_behind_cut :
    cut.callWith (some 5) ⟨10, 3, [9, 9]⟩ = some (.error (.badBlockSignature 0x0909), cut)
      ∧ (∃ first, cut.prepare counted ⟨0, 7⟩ = (.ok (), first)
          ∧ CleanEntry 6 counted ⟨0, 7⟩ cut.machine.memory first ∧ first.registers.cx = 2)
      ∧ ((holding Registers.initial).callAllWith none [counted]).map
            (Prod.map id (·.machine.memory))
          = ((holding { Registers.initial with ax := 0xdead }).callAllWith none [counted]).map
            (Prod.map id (·.machine.memory)) := by
  have hreached : Reached (some 5) counter cut :=
    reached_behind (load_eq_ok (by decide)) 5 counted
  obtain ⟨hclean, hleftover⟩ := calls_enter_clean
  obtain ⟨hpassed, -⟩ := hclean (some 5) counter cut hreached ⟨10, 3, [9, 9]⟩ (by decide)
  obtain ⟨-, hentered⟩ := hclean (some 5) counter cut hreached counted (by decide)
  obtain ⟨first, hprepare, hfirst, -⟩ := hentered ⟨0, 7⟩ rfl
  refine ⟨(hpassed _ rfl).1, ⟨first, hprepare, hfirst, ?_⟩, ?_⟩
  · rw [hfirst.registers]
    rfl
  · apply hleftover
    · exact memory_holding _ _
    · rfl

end Sandbox

end CmStream
