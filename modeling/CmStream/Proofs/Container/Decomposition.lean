import CmStream.Container.Walk
import CmStream.Proofs.Container.Grammar

/-!
# The one decomposition of a stream

A stream is accepted if and only if it has a decomposition into its signature, blocks that fit, the
terminator, padding and an image that is there in full, and it has no more than one. Parsing finds
what the decomposition says, and a walk gives the same blocks one at a time.
-/

namespace CmStream

open Reader

/-! ## Walking is reading all blocks -/

namespace Walk

variable {r behind : Reader} {blocks : List Block} {n : Nat}

theorem next_start_of_some {block : Block} (h : Block.read? r = .ok (some block, behind)) :
    (start r).next = (some (.ok block), start behind) := by
  simp [next, start, h]

theorem next_start_of_none (h : Block.read? r = .ok (none, behind)) :
    (start r).next = (none, ⟨behind, true⟩) := by
  simp [next, start, h]

theorem next_start_of_error {error : FormatError} (h : Block.read? r = .error error) :
    (start r).next = (some (.error error), ⟨r, true⟩) := by
  simp [next, start, h]

/-- A walk that has ended stays where it is. -/
theorem after_ended (n : Nat) (r : Reader) : after n ⟨r, true⟩ = ⟨r, true⟩ := by
  induction n with
  | zero => rfl
  | succ n ih => exact ih

theorem nth_ended (n : Nat) (r : Reader) : nth n ⟨r, true⟩ = none := by
  rw [nth, after_ended]
  rfl

/-- Walking to the end goes as far as reading all blocks, and fails with the same error. -/
theorem skip_start (attempts : Nat) (r : Reader) :
    skip attempts (start r) = (Block.readAll attempts r).map Prod.snd := by
  induction attempts generalizing r with
  | zero => rfl
  | succ attempts ih =>
    unfold skip Block.readAll
    rcases hread : Block.read? r with error | ⟨_ | block, behind⟩
    · rw [next_start_of_error hread]
      rfl
    · rw [next_start_of_none hread]
      rfl
    · rw [next_start_of_some hread]
      show skip attempts (start behind) = _
      rw [ih behind]
      cases hrest : Block.readAll attempts behind with
      | ok rest => simp [Bind.bind, Except.bind, Except.map, pure, Except.pure, hrest]
      | error error => simp [Bind.bind, Except.bind, Except.map, hrest]

/-- A walk gives the blocks that are read, in their order, then nothing however often it is asked,
and never an error. -/
theorem nth_start {attempts : Nat} (h : Block.readAll attempts r = .ok (blocks, behind)) (n : Nat) :
    nth n (start r) = blocks[n]?.map Except.ok := by
  induction attempts generalizing r blocks n with
  | zero => cases h
  | succ attempts ih =>
    unfold Block.readAll at h
    obtain ⟨⟨found, middle⟩, hread, h⟩ := bind_eq_ok_iff.mp h
    cases found with
    | none =>
      cases h
      cases n with
      | zero => simp [nth, after, next_start_of_none hread]
      | succ n =>
        have hover : nth (n + 1) (start r) = nth n (start r).next.2 := rfl
        rw [hover, next_start_of_none hread, nth_ended]
        rfl
    | some block =>
      obtain ⟨⟨rest, last⟩, hrest, h⟩ := bind_eq_ok_iff.mp h
      cases h
      cases n with
      | zero => simp [nth, after, next_start_of_some hread]
      | succ n =>
        have hlater : nth (n + 1) (start r) = nth n (start r).next.2 := rfl
        rw [hlater, next_start_of_some hread, ih hrest n]
        rfl

end Walk

/-! ## Decompositions -/

/-- Everything that a stream is made of. -/
@[ext]
structure Stream where
  /-- What the blocks say to be their uncompressed lengths, and their payloads. -/
  pieces : List (Word × List Byte)
  padding : List Byte
  entry : Word
  paragraphs : Word
  /-- What follows the header of the image. -/
  rest : List Byte
  fits : ∀ piece ∈ pieces, 1 ≤ piece.2.length ∧ piece.2.length ≤ 65535
  short : padding.length < 16
  aligned : 16 ∣ (Container.encodeBlocks pieces).length + padding.length
  complete : 16 * paragraphs.toNat ≤ 6 + rest.length

namespace Stream

variable {s s' : Stream}

/-- The image from its header on, and what follows it. -/
def behind (s : Stream) : List Byte :=
  Word.toBytes streamSignature ++ Word.toBytes s.entry ++ Word.toBytes s.paragraphs ++ s.rest

def bytes (s : Stream) : List Byte := Container.encodeBlocks s.pieces ++ s.padding ++ s.behind

/-- Where the image begins. -/
def offset (s : Stream) : Nat := (Container.encodeBlocks s.pieces).length + s.padding.length

/-- The blocks, each where the descriptors and the payloads before it have ended. -/
def blocks (s : Stream) : List Block :=
  s.pieces.mapIdx fun i piece =>
    ⟨(s.pieces.take i).foldl (fun place earlier => place + (5 + earlier.2.length)) 2,
      piece.1, piece.2⟩

def image (s : Stream) : Image :=
  ⟨s.offset, s.entry, s.paragraphs, s.behind.take (16 * s.paragraphs.toNat)⟩

def container (s : Stream) : Container := ⟨s.blocks, s.image⟩

theorem length_behind (s : Stream) : s.behind.length = 6 + s.rest.length := by
  simp [behind, Word.toBytes]
  omega

/-- Of the lengths below a paragraph only one reaches the next multiple of a paragraph. -/
theorem length_padding (s : Stream) : s.padding.length
    = Reader.padding paragraph (Container.encodeBlocks s.pieces).length := by
  have hshort := s.short
  have haligned := s.aligned
  unfold Reader.padding paragraph
  omega

end Stream

namespace Block

/-- The place of a block is the sum of the lengths of what stands before it. -/
theorem placed_eq_mapIdx (position : Nat) (pieces : List (Word × List Byte)) :
    placed position pieces = pieces.mapIdx fun i piece =>
      ⟨(pieces.take i).foldl (fun place earlier => place + (5 + earlier.2.length)) position,
        piece.1, piece.2⟩ := by
  induction pieces generalizing position with
  | nil => rfl
  | cons piece pieces ih => simp [placed, ih, length_encode, List.mapIdx_cons]

end Block

namespace Stream

variable {s s' : Stream}

theorem read_image (s : Stream) : Image.read ⟨s.offset, s.behind⟩ = .ok s.image := by
  refine Image.read_eq_ok_iff.mpr ⟨rfl, ⟨s.rest, rfl⟩, ?_, ?_⟩
  · have hcomplete := s.complete
    show s.paragraphs.toNat * 16 ≤ s.behind.length
    rw [s.length_behind]
    omega
  · show s.behind.take (16 * s.paragraphs.toNat) = s.behind.take (s.paragraphs.toNat * 16)
    rw [Nat.mul_comm]

theorem drop_offset_bytes (s : Stream) : s.bytes.drop s.offset = s.behind := by
  have hfront : (Container.encodeBlocks s.pieces ++ s.padding).length = s.offset :=
    List.length_append
  rw [bytes, ← hfront, List.drop_left]

/-- Parsing finds what a stream is made of. -/
theorem parse_bytes (s : Stream) : Container.parse s.bytes = .ok s.container :=
  Container.parse_eq_ok_iff.mpr ⟨s.pieces, s.padding, s.behind, s.fits, rfl, s.length_padding,
    (Block.placed_eq_mapIdx 2 s.pieces).symm, s.read_image⟩

/-- What has been parsed was such a stream. -/
theorem exists_of_parse {bytes : List Byte} {container : Container}
    (h : Container.parse bytes = .ok container) : ∃ s : Stream, s.bytes = bytes := by
  obtain ⟨pieces, gap, behind, hfits, rfl, hgap, -, himage⟩ := Container.parse_eq_ok_iff.mp h
  obtain ⟨-, ⟨rest, hbehind⟩, hroom, -⟩ := Image.read_eq_ok_iff.mp himage
  dsimp only at hbehind
  subst hbehind
  refine ⟨⟨pieces, gap, container.image.entry, container.image.paragraphs, rest, hfits, ?_, ?_, ?_⟩,
    rfl⟩
  · rw [hgap]
    exact padding_lt (by decide) _
  · rw [hgap]
    exact dvd_position_add_padding (by decide) _
  · simp only [remaining, List.length_append, Word.toBytes, List.length_cons, List.length_nil,
      paragraph] at hroom
    omega

/-- The blocks that are found say what the blocks were. -/
theorem pieces_eq_map_blocks (s : Stream) :
    s.pieces = s.blocks.map fun block => (block.uncompressedLength, block.payload) := by
  apply List.ext_getElem?
  intro i
  unfold blocks
  rw [List.getElem?_map, List.getElem?_mapIdx, Option.map_map]
  exact (Option.map_id_apply).symm

/-- Two streams of the same bytes are made of the same. -/
theorem bytes_injective : Function.Injective bytes := by
  intro s s' hbytes
  have hparse := s.parse_bytes
  rw [hbytes, s'.parse_bytes] at hparse
  obtain hcontainer : s'.container = s.container := Except.ok.inj hparse
  have hblocks : s'.blocks = s.blocks := congrArg Container.blocks hcontainer
  have himage : s'.image = s.image := congrArg Container.image hcontainer
  have hpieces : s.pieces = s'.pieces := by
    rw [s.pieces_eq_map_blocks, s'.pieces_eq_map_blocks, hblocks]
  have hentry : s.entry = s'.entry := (congrArg Image.entry himage).symm
  have hparagraphs : s.paragraphs = s'.paragraphs := (congrArg Image.paragraphs himage).symm
  have hlength : s.padding.length = s'.padding.length := by
    rw [s.length_padding, s'.length_padding, hpieces]
  have hrests : s.padding ++ s.behind = s'.padding ++ s'.behind := by
    unfold bytes at hbytes
    rw [List.append_assoc, List.append_assoc, hpieces] at hbytes
    exact List.append_cancel_left hbytes
  obtain ⟨hpadding, hbehind⟩ := List.append_inj hrests hlength
  have hrest : s.rest = s'.rest := by
    unfold behind at hbehind
    rw [hentry, hparagraphs] at hbehind
    exact List.append_cancel_left hbehind
  exact Stream.ext hpieces hpadding hentry hparagraphs hrest

/-- What follows the signature. -/
def tail (s : Stream) : List Byte :=
  Block.encodeAll s.pieces ++ Block.terminator ++ (s.padding ++ s.behind)

theorem bytes_eq (s : Stream) : s.bytes = Word.toBytes streamSignature ++ s.tail := by
  rw [bytes, Container.encodeBlocks_eq, tail]
  simp only [List.append_assoc]

theorem nth_walk_bytes (s : Stream) (n : Nat) :
    (Container.walk s.bytes).nth n = s.blocks[n]?.map Except.ok := by
  have hdrop : s.bytes.drop 2 = s.tail := by
    rw [s.bytes_eq]
    rfl
  have hpasses : (Reader.mk 2 (s.bytes.drop 2)).Passes
      (Block.encodeAll s.pieces ++ Block.terminator) ⟨2 + _, s.padding ++ s.behind⟩ :=
    ⟨hdrop, rfl⟩
  have hread := Block.readAll_eq_ok_iff.mpr ⟨s.pieces, (Block.placed_eq_mapIdx 2 s.pieces).symm,
    s.fits, Nat.lt_succ_self _, hpasses⟩
  exact Walk.nth_start hread n

theorem looksLikeOne_bytes (s : Stream) : Container.looksLikeOne s.bytes = true := by
  have hmore : s.tail ≠ [] := by
    simp [tail, Block.terminator]
  obtain ⟨first, rest, htail⟩ := List.exists_cons_of_ne_nil hmore
  rw [s.bytes_eq, htail]
  rfl

/-- Parsing accepts exactly the streams with a decomposition, of which there is only one, and finds
what it says; and a walk over the blocks gives these, one at a time. -/
theorem parse_eq_ok_iff_exists_unique :
    (∀ bytes, (∃ container, Container.parse bytes = .ok container) ↔ ∃ s : Stream, s.bytes = bytes)
      ∧ Function.Injective bytes
      ∧ ∀ s : Stream, Container.parse s.bytes = .ok s.container
        ∧ 16 ∣ s.container.image.offset
        ∧ s.container.image.code
            = (s.bytes.drop s.container.image.offset).take (16 * s.paragraphs.toNat)
        ∧ s.container.image.code.length = 16 * s.paragraphs.toNat
        ∧ (∀ n, (Container.walk s.bytes).nth n = s.container.blocks[n]?.map Except.ok)
        ∧ Container.looksLikeOne s.bytes = true := by
  refine ⟨?_, bytes_injective, fun s => ⟨s.parse_bytes, s.aligned, ?_, ?_, s.nth_walk_bytes,
    s.looksLikeOne_bytes⟩⟩
  · intro bytes
    constructor
    · rintro ⟨container, hparse⟩
      exact exists_of_parse hparse
    · rintro ⟨s, rfl⟩
      exact ⟨s.container, s.parse_bytes⟩
  · show s.image.code = (s.bytes.drop s.offset).take _
    rw [s.drop_offset_bytes]
    rfl
  · show (s.behind.take (16 * s.paragraphs.toNat)).length = _
    have hcomplete := s.complete
    exact List.length_take_of_le (by rw [s.length_behind]; omega)

/-- An image of no paragraphs is shorter than its own header, and a walk that has ended gives
nothing any more. -/
theorem parse_one_block_no_paragraphs :
    ∃ s : Stream, s.pieces = [(3, [9, 9])] ∧ s.padding = [1, 2, 3, 4] ∧ s.rest = []
      ∧ Container.parse s.bytes = .ok ⟨[⟨2, 3, [9, 9]⟩], ⟨16, 6, 0, []⟩⟩
      ∧ (Container.walk s.bytes).nth 0 = some (.ok ⟨2, 3, [9, 9]⟩)
      ∧ (Container.walk s.bytes).nth 1 = none
      ∧ (Container.walk s.bytes).nth 5 = none := by
  obtain ⟨-, -, hall⟩ := parse_eq_ok_iff_exists_unique
  obtain ⟨hparse, -, -, -, hwalk, -⟩ :=
    hall ⟨[(3, [9, 9])], [1, 2, 3, 4], 6, 0, [], by decide, by decide, by decide, by decide⟩
  exact ⟨_, rfl, rfl, rfl, hparse, hwalk 0, hwalk 1, hwalk 5⟩

end Stream

end CmStream
