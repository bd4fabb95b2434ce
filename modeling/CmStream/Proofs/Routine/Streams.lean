import CmStream.Container.Routine
import CmStream.Proofs.Routine.Placement
import CmStream.Proofs.Sandbox.Acceptance

/-!
# Streams for one routine

A routine that turns every block of a stream into some output, wherever the block stands and
whatever the blocks before it have left, decompresses the stream to all of these outputs. What is
left to prove about a routine is the call for a single block.
-/

namespace CmStream

open Sandbox

namespace Routine

variable {routine data : List Byte} {s : Sandbox} {limit : Option Nat} {n : Nat}

/-! ## Payloads -/

theorem length_payloadOf (control : Word) (data : List Byte) :
    (Block.payloadOf control data).length = BlockHeader.length + data.length := by
  unfold Block.payloadOf
  rw [List.length_append]
  rfl

/-- The data that a block can hold behind its header. -/
theorem fits_payloadOf {uncompressedLength control : Word}
    (hlength : BlockHeader.length + data.length < segmentSize) :
    Block.Fits (uncompressedLength, Block.payloadOf control data) := by
  unfold Block.Fits
  rw [length_payloadOf]
  simp only [BlockHeader.length, segmentSize] at hlength ⊢
  omega

/-- Behind the header, the data lies in the second region. -/
theorem byteAt_entered_payloadOf {block : Block} {header : BlockHeader} {control : Word}
    (hpayload : block.payload = Block.payloadOf control data) (hlaid : LaidOut s.machine.memory)
    (hlength : BlockHeader.length + data.length < segmentSize) {i : Nat} (hi : i < data.length) :
    (s.entered block header).memory.byteAt ⟨inputRegion, BlockHeader.length + i⟩ = data[i] := by
  have hcount : block.payload.length = BlockHeader.length + data.length := by
    rw [hpayload, length_payloadOf]
  have hinside : BlockHeader.length + i < block.payload.length := by
    omega
  have hfront : block.payload = (BlockHeader.mk 0 control).bytes ++ data := hpayload
  rw [byteAt_entered_input hlaid (by omega) hinside]
  exact getElem_front_add hfront hi hinside

/-! ## Whole streams -/

/-- A routine that is ready accepts a piece at any place of a stream, is ready again behind it, and
leaves the given output. -/
def Turns (routine : List Byte) (limit : Option Nat) (piece : Word × List Byte)
    (out : List Byte) : Prop :=
  ∀ s offset, Ready routine s →
    ∃ after, Accepts limit s ⟨offset, piece.1, piece.2⟩ after ∧ Ready routine after
      ∧ after.output piece.1 = out

section Items

variable {α : Type} {items : List α} {piece : α → Word × List Byte} {out : α → List Byte}

/-- Every block leaves the sandbox as the next one needs it, so all of them are accepted. -/
theorem acceptsAll_of_turns (position : Nat) (h : Ready routine s)
    (hturns : ∀ item ∈ items, Turns routine limit (piece item) (out item)) :
    ∃ states, AcceptsAll limit s (Block.placed position (items.map piece)) states
      ∧ collect (Block.placed position (items.map piece)) states = items.flatMap out := by
  induction items generalizing s position with
  | nil => exact ⟨[], .nil s, rfl⟩
  | cons item items ih =>
    obtain ⟨after, haccepts, hready, hout⟩ := hturns item List.mem_cons_self s position h
    obtain ⟨states, hlater, hcollect⟩ :=
      ih _ hready fun later hlater => hturns later (List.mem_cons_of_mem _ hlater)
    refine ⟨after :: states, .cons haccepts hlater, ?_⟩
    rw [List.map_cons, Block.placed, collect, hcollect, List.flatMap_cons]
    exact congrArg (· ++ items.flatMap out) hout

/-- A stream of blocks that fit is parsed into these blocks, and its sandbox is ready. -/
theorem exists_ready_of_encode (hfits : ∀ item ∈ items, Block.Fits (piece item))
    (hlength : (Image.encode routine).length ≤ codeSpace) :
    ∃ container s, Container.parse (Container.encode (items.map piece) routine) = .ok container
      ∧ container.blocks = Block.placed 2 (items.map piece)
      ∧ container.image.code.length ≤ codeSpace
      ∧ Sandbox.load container.image = .ok s ∧ Ready routine s := by
  have hall : ∀ encoded ∈ items.map piece, Block.Fits encoded := by
    intro encoded hencoded
    obtain ⟨item, hitem, rfl⟩ := List.mem_map.mp hencoded
    exact hfits item hitem
  have hparagraphs : (Image.encode routine).length < 0x10000 * paragraph :=
    Nat.lt_of_le_of_lt hlength (by decide)
  obtain ⟨image, hparse, hentry, hcode⟩ := Container.parse_encode hall hparagraphs
  have hshort : image.code.length ≤ codeSpace := by
    rw [hcode]
    exact hlength
  exact ⟨_, _, hparse, rfl, hshort, load_eq_ok hshort, ready_initial hentry hcode hlength⟩

/-- A stream of blocks that are all turned into something decompresses to all of that. -/
theorem decompress_of_turns (hfits : ∀ item ∈ items, Block.Fits (piece item))
    (hlength : (Image.encode routine).length ≤ codeSpace)
    (hturns : ∀ item ∈ items, Turns routine (some n) (piece item) (out item)) :
    decompress n (Container.encode (items.map piece) routine) = .ok (items.flatMap out)
      ∧ decompressUnlimited? n (Container.encode (items.map piece) routine)
        = some (.ok (items.flatMap out)) := by
  obtain ⟨container, s, hparse, hblocks, hshort, hload, hready⟩ :=
    exists_ready_of_encode hfits hlength
  obtain ⟨states, haccepts, hcollect⟩ := acceptsAll_of_turns 2 hready hturns
  rw [← hblocks] at haccepts hcollect
  have hout : decompress n (Container.encode (items.map piece) routine)
      = .ok (items.flatMap out) :=
    decompress_of_accepted ⟨container, s, states, hparse, hshort, hload, haccepts, hcollect.symm⟩
  refine ⟨hout, decompressUnlimited_eq_some_iff.mpr ⟨hout, ?_⟩⟩
  rintro error ⟨⟩

end Items

end Routine

end CmStream
