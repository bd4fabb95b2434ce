import CmStream.Proofs.Container.Decomposition
import CmStream.Proofs.Sandbox.Limits

/-!
# Output depends on the image and the blocks, front to back

Of a stream nothing reaches the sandbox but the entry point and the code of the image and the
blocks, one after the other. Where the image lies, what the padding consists of and what follows the
image makes no difference. Further blocks can only add to the output or spoil it: they come too late
to change what the blocks before them have given, and an error among these comes first.
-/

namespace CmStream

namespace Container

/-- What the blocks of a stream say and hold, without their places. -/
def pieces (container : Container) : List (Word × List Byte) :=
  container.blocks.map fun block => (block.uncompressedLength, block.payload)

end Container

namespace Block

theorem placed_append (position : Nat) (pieces more : List (Word × List Byte)) :
    placed position (pieces ++ more)
      = placed position pieces ++ placed (position + (encodeAll pieces).length) more := by
  induction pieces generalizing position with
  | nil => rfl
  | cons piece pieces ih =>
    rw [List.cons_append, placed, ih, length_encodeAll_cons, Nat.add_assoc]
    rfl

end Block

namespace Stream

/-- The places of blocks follow from the blocks before them, so streams whose pieces begin alike
begin with the same blocks. -/
theorem exists_blocks_append {s s' : Stream} (h : s.pieces <+: s'.pieces) :
    ∃ more, s'.blocks = s.blocks ++ more := by
  obtain ⟨rest, hpieces⟩ := h
  refine ⟨Block.placed (2 + (Block.encodeAll s.pieces).length) rest, ?_⟩
  unfold blocks
  rw [← Block.placed_eq_mapIdx, ← Block.placed_eq_mapIdx, ← hpieces, Block.placed_append]

end Stream

namespace Container

variable {bytes bytes' : List Byte} {container container' : Container}

theorem exists_stream_of_parse (h : parse bytes = .ok container) :
    ∃ s : Stream, s.container = container := by
  obtain ⟨s, rfl⟩ := Stream.exists_of_parse h
  rw [s.parse_bytes] at h
  exact ⟨s, Except.ok.inj h⟩

theorem exists_blocks_append (hparse : parse bytes = .ok container)
    (hparse' : parse bytes' = .ok container') (h : container.pieces <+: container'.pieces) :
    ∃ more, container'.blocks = container.blocks ++ more := by
  obtain ⟨s, rfl⟩ := exists_stream_of_parse hparse
  obtain ⟨s', rfl⟩ := exists_stream_of_parse hparse'
  apply Stream.exists_blocks_append
  rw [s.pieces_eq_map_blocks, s'.pieces_eq_map_blocks]
  exact h

theorem blocks_eq_of_pieces (hparse : parse bytes = .ok container)
    (hparse' : parse bytes' = .ok container') (h : container.pieces = container'.pieces) :
    container.blocks = container'.blocks := by
  obtain ⟨more, hmore⟩ := exists_blocks_append hparse hparse' (h ▸ List.prefix_rfl)
  have hlength : container.blocks.length = container'.blocks.length := by
    have hpieces := congrArg List.length h
    unfold pieces at hpieces
    rwa [List.length_map, List.length_map] at hpieces
  rw [hmore, List.length_append] at hlength
  obtain rfl : more = [] := List.eq_nil_of_length_eq_zero (by omega)
  rw [hmore, List.append_nil]

end Container

namespace Sandbox

variable {limit : Option Nat} {s : Sandbox} {blocks : List Block} {image image' : Image}

/-- What a sandbox is set up with is the entry point and the code. -/
theorem load_congr (hentry : image.entry = image'.entry) (hcode : image.code = image'.code) :
    load image = load image' := by
  unfold load
  rw [hentry, hcode]

/-- Either a block spoils everything, whatever comes behind it, or its output is put in front of the
output of what comes behind it. -/
theorem decompressWith_cons_or {block : Block} {called : Except FormatError CallResult}
    {after : Sandbox} (h : s.callWith limit block = some (called, after)) :
    (∃ error, ∀ rest, s.decompressWith limit (block :: rest) = some (.error error))
      ∨ ∀ rest, s.decompressWith limit (block :: rest)
        = (after.decompressWith limit rest).map
          (Except.map (after.output block.uncompressedLength ++ ·)) := by
  simp only [decompressWith, h, Option.bind_some]
  cases called with
  | error error => exact .inl ⟨_, fun _ => rfl⟩
  | ok result =>
    dsimp only
    cases result.check block with
    | error error => exact .inl ⟨_, fun _ => rfl⟩
    | ok => exact .inr fun _ => rfl

theorem exists_callWith_of_decompressWith {block : Block} {rest : List Block}
    {result : Except Error (List Byte)} (h : s.decompressWith limit (block :: rest) = some result) :
    ∃ called after, s.callWith limit block = some (called, after) := by
  unfold decompressWith at h
  obtain ⟨⟨called, after⟩, hcall, -⟩ := Option.bind_eq_some_iff.mp h
  exact ⟨called, after, hcall⟩

section Front

variable {front : List Byte} {result : Option (Except Error (List Byte))}

/-- What is put in front of an output leaves an error as it is. -/
theorem map_append_eq_error_iff {error : Error} :
    result.map (Except.map (front ++ ·)) = some (.error error)
      ↔ result = some (.error error) := by
  rcases result with _ | error' | later
  · exact Iff.rfl
  · exact Iff.rfl
  · constructor <;> rintro ⟨⟩

theorem exists_of_map_append_eq_ok {out : List Byte}
    (h : result.map (Except.map (front ++ ·)) = some (.ok out)) :
    ∃ later, result = some (.ok later) ∧ front ++ later = out := by
  rcases result with _ | error | later
  · cases h
  · cases h
  · cases h
    exact ⟨later, rfl, rfl⟩

/-- Putting something in front of an output in two parts. -/
theorem map_append_map (first second : List Byte) :
    (result.map (Except.map (second ++ ·))).map (Except.map (first ++ ·))
      = result.map (Except.map (first ++ second ++ ·)) := by
  rcases result with _ | error | later
  · rfl
  · rfl
  · simp [Except.map]

theorem map_append_nil : result.map (Except.map ([] ++ ·)) = result := by
  rcases result with _ | error | later <;> rfl

end Front

/-- An error among the first blocks is the error of all blocks. -/
theorem decompressWith_append_of_error {error : Error} (more : List Block)
    (h : s.decompressWith limit blocks = some (.error error)) :
    s.decompressWith limit (blocks ++ more) = some (.error error) := by
  induction blocks generalizing s with
  | nil => cases h
  | cons block rest ih =>
    obtain ⟨called, after, hcall⟩ := exists_callWith_of_decompressWith h
    rw [List.cons_append]
    rcases decompressWith_cons_or hcall with ⟨error', hspoilt⟩ | hgoes
    · rw [hspoilt] at h ⊢
      exact h
    · -- This block is accepted, so the error is one of the blocks behind it.
      rw [hgoes, map_append_eq_error_iff] at h ⊢
      exact ih h

/-- Behind the output of the first blocks comes that of the others, in the sandbox that the first
ones have left. -/
theorem decompressWith_append_of_ok {out : List Byte}
    (h : s.decompressWith limit blocks = some (.ok out)) :
    ∃ after : Sandbox, ∀ more, s.decompressWith limit (blocks ++ more)
      = (after.decompressWith limit more).map (Except.map (out ++ ·)) := by
  induction blocks generalizing s out with
  | nil =>
    cases h
    exact ⟨s, fun more => map_append_nil.symm⟩
  | cons block rest ih =>
    obtain ⟨called, between, hcall⟩ := exists_callWith_of_decompressWith h
    rcases decompressWith_cons_or hcall with ⟨error', hspoilt⟩ | hgoes
    · rw [hspoilt] at h
      cases h
    · rw [hgoes] at h
      obtain ⟨later, hrest, rfl⟩ := exists_of_map_append_eq_ok h
      obtain ⟨after, hafter⟩ := ih hrest
      refine ⟨after, fun more => ?_⟩
      rw [List.cons_append, hgoes, hafter, map_append_map]

end Sandbox

open Sandbox

variable {limit : Option Nat} {bytes bytes' : List Byte} {container container' : Container}

theorem decompressWith_of_load {s : Sandbox} (hparse : Container.parse bytes = .ok container)
    (hload : load container.image = .ok s) :
    decompressWith limit bytes = s.decompressWith limit container.blocks := by
  unfold decompressWith
  simp only [hparse, hload]

theorem decompressWith_of_load_error {error : SetupError}
    (hparse : Container.parse bytes = .ok container)
    (hload : load container.image = .error error) :
    decompressWith limit bytes = some (.error (.setup error)) := by
  unfold decompressWith
  simp only [hparse, hload]

/-- Let two streams have the same entry point and code, and let the pieces of one begin with those
of the other. Then an error of the shorter one is an error of the longer one, and if the shorter one
has an output, the longer one has an error or an output that begins with it. With the same pieces
both come to the same. -/
theorem decompressWith_of_pieces_prefix (limit : Option Nat)
    (hparse : Container.parse bytes = .ok container)
    (hparse' : Container.parse bytes' = .ok container')
    (hentry : container.image.entry = container'.image.entry)
    (hcode : container.image.code = container'.image.code)
    (hpieces : container.pieces <+: container'.pieces) :
    (∀ error, decompressWith limit bytes = some (.error error) →
        decompressWith limit bytes' = some (.error error))
      ∧ (∀ out result, decompressWith limit bytes = some (.ok out) →
          decompressWith limit bytes' = some result →
          (∃ error, result = .error error) ∨ ∃ rest, result = .ok (out ++ rest))
      ∧ (container.pieces = container'.pieces →
          decompressWith limit bytes = decompressWith limit bytes') := by
  obtain ⟨more, hblocks⟩ := Container.exists_blocks_append hparse hparse' hpieces
  have hload := load_congr hentry hcode
  cases hfirst : load container.image with
  | error error =>
    rw [hfirst] at hload
    rw [decompressWith_of_load_error hparse hfirst, decompressWith_of_load_error hparse' hload.symm]
    refine ⟨fun error herror => herror, ?_, fun _ => rfl⟩
    rintro out result ⟨⟩
  | ok s =>
    rw [hfirst] at hload
    rw [decompressWith_of_load hparse hfirst, decompressWith_of_load hparse' hload.symm, hblocks]
    refine ⟨fun error herror => ?_, fun out result hout hresult => ?_, fun hsame => ?_⟩
    · exact decompressWith_append_of_error more herror
    · obtain ⟨after, hafter⟩ := decompressWith_append_of_ok hout
      rw [hafter] at hresult
      obtain ⟨later, -, rfl⟩ := Option.map_eq_some_iff.mp hresult
      cases later with
      | error error => exact .inl ⟨error, rfl⟩
      | ok rest => exact .inr ⟨rest, rfl⟩
    · rw [← hblocks, Container.blocks_eq_of_pieces hparse hparse' hsame]

/-! ## Streams that differ in all but their code -/

open Routine

/-- A stream for the copying routine, with any padding and anything behind the image. -/
def copyingStream (pieces : List (Word × List Byte)) (padding trailer : List Byte)
    (fits : ∀ piece ∈ pieces, 1 ≤ piece.2.length ∧ piece.2.length ≤ 65535 := by decide)
    (short : padding.length < 16 := by decide)
    (aligned : 16 ∣ (Container.encodeBlocks pieces).length + padding.length := by decide) :
    Stream where
  pieces := pieces
  padding := padding
  entry := 6
  paragraphs := 1
  rest := copy ++ [0, 0, 0] ++ trailer
  fits := fits
  short := short
  aligned := aligned
  complete := by
    rw [List.length_append]
    show 16 ≤ 6 + (10 + trailer.length)
    omega

/-- A block that is copied. -/
def copiedOnce : Stream := copyingStream [copiedBlock [1, 2, 3]] (List.replicate 13 0) []

/-- The same block, with another padding and something behind the image. -/
def copiedOnceOtherwise : Stream :=
  copyingStream [copiedBlock [1, 2, 3]] (List.replicate 13 0xee) [0x90]

/-- A further block, which moves the image. -/
def copiedTwice : Stream :=
  copyingStream [copiedBlock [1, 2, 3], copiedBlock [4, 5, 6]] (List.replicate 15 0) []

/-- A block without a header. -/
def headless : Stream := copyingStream [(3, [9, 9])] (List.replicate 4 0) []

/-- A copied block behind the block without a header. -/
def headlessFirst : Stream :=
  copyingStream [(3, [9, 9]), copiedBlock [1, 2, 3]] (List.replicate 6 0xee) [0x90]

theorem decompressWith_headless :
    decompressWith none headless.bytes
      = some (.error (.format (.badBlockSignature 0x0909))) := by
  have hshort : headless.container.image.code.length ≤ codeSpace := by decide
  rw [decompressWith_of_load headless.parse_bytes (load_eq_ok hshort)]
  rfl

theorem decompressWith_six_copied (datas : List (List Byte))
    (hfits : ∀ data ∈ datas, data.length ≤ maxCopied) :
    decompressWith (some 6) (copiedStream copy datas) = some (.ok datas.flatten) := by
  rw [decompressWith_some, decompress_six_copied datas hfits]

theorem decompressWith_of_pieces_prefix_copied :
    decompressWith none headlessFirst.bytes
        = some (.error (.format (.badBlockSignature 0x0909)))
      ∧ decompressWith (some 6) copiedOnceOtherwise.bytes = some (.ok [1, 2, 3])
      ∧ decompressWith (some 6) copiedTwice.bytes = some (.ok [1, 2, 3, 4, 5, 6])
      ∧ ((∃ error, (.ok [1, 2, 3, 4, 5, 6] : Except Error (List Byte)) = .error error)
        ∨ ∃ rest, (.ok [1, 2, 3, 4, 5, 6] : Except Error (List Byte))
          = .ok ([1, 2, 3] ++ rest)) := by
  have honce : decompressWith (some 6) copiedOnce.bytes = some (.ok [1, 2, 3]) :=
    decompressWith_six_copied [[1, 2, 3]] (by decide)
  have htwice : decompressWith (some 6) copiedTwice.bytes = some (.ok [1, 2, 3, 4, 5, 6]) :=
    decompressWith_six_copied [[1, 2, 3], [4, 5, 6]] (by decide)
  obtain ⟨herror, -, -⟩ := decompressWith_of_pieces_prefix none headless.parse_bytes
    headlessFirst.parse_bytes rfl (by decide) (by decide)
  obtain ⟨-, -, hsame⟩ := decompressWith_of_pieces_prefix (some 6) copiedOnce.parse_bytes
    copiedOnceOtherwise.parse_bytes rfl (by decide) (by decide)
  obtain ⟨-, hextends, -⟩ := decompressWith_of_pieces_prefix (some 6) copiedOnce.parse_bytes
    copiedTwice.parse_bytes rfl (by decide) (by decide)
  exact ⟨herror _ decompressWith_headless, (hsame (by decide)).symm.trans honce, htwice,
    hextends _ _ honce htwice⟩

end CmStream
