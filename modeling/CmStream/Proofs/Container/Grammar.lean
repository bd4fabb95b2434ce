import CmStream.Proofs.Container.Reading

/-!
# The grammar of a stream

Parsing succeeds exactly on what the writers of `CmStream.Container.Encode` produce, but for the
padding, the reserved words and what follows the image, all of which are free. The blocks that are
found are the ones that were written, each with the place at which it was written.
-/

namespace CmStream

open Reader

namespace BlockHeader

/-- The bytes of a header at the front of a payload. -/
def bytes (header : BlockHeader) : List Byte :=
  Word.toBytes blockSignature ++ Word.toBytes header.reserved ++ Word.toBytes header.control

end BlockHeader

namespace Block

variable {r behind : Reader} {block : Block}

/-- The header of a block is read if and only if its bytes are the front of the payload. -/
theorem header_eq_ok_iff {header : BlockHeader} :
    block.header = .ok header ↔ header.bytes <+: block.payload := by
  unfold Block.header
  constructor
  · intro h
    obtain ⟨⟨signature, r⟩, hsignature, h⟩ := bind_eq_ok_iff.mp h
    dsimp only at h
    split at h
    case isTrue => cases h
    case isFalse hsame =>
      obtain rfl := Decidable.of_not_not hsame
      obtain ⟨⟨reserved, r'⟩, hreserved, h⟩ := bind_eq_ok_iff.mp h
      obtain ⟨⟨control, behind⟩, hcontrol, h⟩ := bind_eq_ok_iff.mp h
      cases h
      have hpasses := ((nextWord_eq_ok_iff.mp hsignature).append
        (nextWord_eq_ok_iff.mp hreserved)).append (nextWord_eq_ok_iff.mp hcontrol)
      exact ⟨behind.rest, hpasses.rest.symm⟩
  · rintro ⟨data, hpayload⟩
    have hpasses : (Reader.ofBytes block.payload).Passes header.bytes ⟨6, data⟩ :=
      ⟨hpayload.symm, rfl⟩
    obtain ⟨r', hfront, hcontrol⟩ := hpasses.exists_middle
    obtain ⟨r, hsignature, hreserved⟩ := hfront.exists_middle
    refine bind_eq_ok_iff.mpr ⟨_, nextWord_eq_ok_iff.mpr hsignature, ?_⟩
    refine bind_eq_ok_iff.mpr ⟨_, nextWord_eq_ok_iff.mpr hreserved, ?_⟩
    exact bind_eq_ok_iff.mpr ⟨_, nextWord_eq_ok_iff.mpr hcontrol, rfl⟩

/-- A length and a payload that a block can have. -/
def Fits (piece : Word × List Byte) : Prop := 0 < piece.2.length ∧ piece.2.length ≤ 0xffff

theorem fits_of_length {length uncompressedLength : Word} {payload : List Byte}
    (hcount : payload.length = length.toNat) (hnonzero : length ≠ 0) :
    Fits (uncompressedLength, payload) := by
  have hlt := length.isLt
  have hpositive : length.toNat ≠ 0 := fun hzero => hnonzero (BitVec.eq_of_toNat_eq hzero)
  refine ⟨?_, ?_⟩
  · show 0 < payload.length
    omega
  · show payload.length ≤ 0xffff
    omega

/-- Of the two validities that are let pass, zero is the one that is not one. -/
theorem eq_zero_of_validity {validity : Byte} (hsmall : ¬ 1 < validity.toNat)
    (hother : (validity == 1) = false) : validity = 0 := by
  have hne : validity.toNat ≠ 1 := by
    intro hone
    rw [BitVec.eq_of_toNat_eq (y := 1) hone] at hother
    cases hother
  apply BitVec.eq_of_toNat_eq
  show validity.toNat = 0
  omega

/-- What can have been read where a block may begin: the terminator or a block that fits, each in
its written form. -/
theorem read?_eq_ok {found : Option Block} (h : read? r = .ok (found, behind)) :
    (found = none ∧ r.Passes terminator behind)
      ∨ ∃ block : Block, found = some block ∧ block.offset = r.position
        ∧ Fits (block.uncompressedLength, block.payload)
        ∧ r.Passes (encode block.uncompressedLength block.payload) behind := by
  unfold read? at h
  obtain ⟨⟨validity, r₁⟩, hvalidity, h⟩ := bind_eq_ok_iff.mp h
  dsimp only at h
  split at h
  case isTrue => cases h
  case isFalse hsmall =>
    obtain ⟨⟨length, r₂⟩, hlength, h⟩ := bind_eq_ok_iff.mp h
    dsimp only at h
    split at h
    case isTrue => cases h
    case isFalse hconsistent =>
      have hfront := (nextByte_eq_ok_iff.mp hvalidity).append (nextWord_eq_ok_iff.mp hlength)
      have hagree : (validity == 1) = (length != 0) := Decidable.of_not_not hconsistent
      split at h
      case isTrue hinvalid =>
        -- The validity is below two and not one, and the length agrees with it: the terminator.
        cases h
        have hother : (validity == 1) = false := (Bool.not_eq_true' _).mp hinvalid
        have hlength : length = 0 := bne_eq_false_iff_eq.mp (hagree.symm.trans hother)
        have hvalidity : validity = 0 := eq_zero_of_validity hsmall hother
        subst hvalidity hlength
        exact .inl ⟨rfl, hfront⟩
      case isFalse hvalid =>
        obtain ⟨⟨uncompressedLength, r₃⟩, huncompressed, h⟩ := bind_eq_ok_iff.mp h
        obtain ⟨⟨payload, r₄⟩, hpayload, h⟩ := bind_eq_ok_iff.mp h
        cases h
        obtain ⟨hcount, hdata⟩ := nextBytes_eq_ok_iff.mp hpayload
        have hone : (validity == 1) = true := by
          rw [Bool.not_eq_true', Bool.not_eq_false] at hvalid
          exact hvalid
        have hnonzero : length ≠ 0 := bne_iff_ne.mp (hagree.symm.trans hone)
        have hlength : BitVec.ofNat 16 payload.length = length := by
          rw [hcount, BitVec.ofNat_toNat, BitVec.setWidth_eq]
        have hfits : Fits (uncompressedLength, payload) := fits_of_length hcount hnonzero
        obtain rfl : validity = 1 := beq_iff_eq.mp hone
        subst hlength
        have hpasses := (hfront.append (nextWord_eq_ok_iff.mp huncompressed)).append hdata
        exact .inr ⟨_, rfl, rfl, hfits, hpasses⟩

theorem read?_terminator (h : r.Passes terminator behind) : read? r = .ok (none, behind) := by
  have hparts : r.Passes ([0] ++ Word.toBytes 0) behind := h
  obtain ⟨middle, hvalidity, hlength⟩ := hparts.exists_middle
  unfold read?
  refine bind_eq_ok_iff.mpr ⟨_, nextByte_eq_ok_iff.mpr hvalidity, ?_⟩
  exact bind_eq_ok_iff.mpr ⟨_, nextWord_eq_ok_iff.mpr hlength, rfl⟩

theorem read?_encode {uncompressedLength : Word} {payload : List Byte}
    (hfits : Fits (uncompressedLength, payload))
    (h : r.Passes (encode uncompressedLength payload) behind) :
    read? r = .ok (some ⟨r.position, uncompressedLength, payload⟩, behind) := by
  have hparts : r.Passes ([1] ++ (Word.toBytes (BitVec.ofNat 16 payload.length)
      ++ Word.toBytes uncompressedLength ++ payload)) behind := h
  obtain ⟨r₁, hvalidity, hrest⟩ := hparts.exists_middle
  obtain ⟨r₃, hlengths, hpayload⟩ := hrest.exists_middle
  obtain ⟨r₂, hlength, huncompressed⟩ := hlengths.exists_middle
  have hcount : (BitVec.ofNat 16 payload.length).toNat = payload.length :=
    Word.toNat_ofNat_of_lt (Nat.lt_succ_of_le hfits.2)
  have hnonzero : (BitVec.ofNat 16 payload.length != 0) = true := by
    rw [bne_iff_ne]
    intro hzero
    rw [hzero] at hcount
    exact absurd hcount.symm (Nat.ne_of_gt hfits.1)
  unfold read?
  refine bind_eq_ok_iff.mpr ⟨_, nextByte_eq_ok_iff.mpr hvalidity, ?_⟩
  refine bind_eq_ok_iff.mpr ⟨_, nextWord_eq_ok_iff.mpr hlength, ?_⟩
  dsimp only
  rw [hnonzero]
  refine bind_eq_ok_iff.mpr ⟨_, nextWord_eq_ok_iff.mpr huncompressed, ?_⟩
  exact bind_eq_ok_iff.mpr ⟨_, nextBytes_eq_ok_iff.mpr ⟨hcount.symm, hpayload⟩, rfl⟩

/-! ## All blocks -/

/-- The written form of several blocks. -/
def encodeAll (pieces : List (Word × List Byte)) : List Byte :=
  pieces.flatMap fun piece => encode piece.1 piece.2

/-- The blocks with the given lengths and payloads, written one behind the other from a position
on. -/
def placed (position : Nat) : List (Word × List Byte) → List Block
  | [] => []
  | piece :: rest =>
    ⟨position, piece.1, piece.2⟩ :: placed (position + (encode piece.1 piece.2).length) rest

theorem length_encode (uncompressedLength : Word) (payload : List Byte) :
    (encode uncompressedLength payload).length = 5 + payload.length := by
  unfold encode Word.toBytes
  simp only [List.length_cons, List.length_append, List.length_nil]
  omega

theorem exists_mem_of_mem_placed {position : Nat} {pieces : List (Word × List Byte)}
    (h : block ∈ placed position pieces) :
    (block.uncompressedLength, block.payload) ∈ pieces := by
  induction pieces generalizing position with
  | nil => contradiction
  | cons piece pieces ih =>
    rcases List.mem_cons.mp h with rfl | h
    · exact List.mem_cons_self
    · exact List.mem_cons_of_mem _ (ih h)

theorem length_encodeAll_cons (piece : Word × List Byte) (pieces : List (Word × List Byte)) :
    (encodeAll (piece :: pieces)).length
      = (encode piece.1 piece.2).length + (encodeAll pieces).length := by
  unfold encodeAll
  rw [List.flatMap_cons, List.length_append]

/-- There are fewer blocks than bytes. -/
theorem length_le_length_encodeAll (pieces : List (Word × List Byte)) :
    pieces.length ≤ (encodeAll pieces).length := by
  induction pieces with
  | nil => exact Nat.le_refl 0
  | cons piece pieces ih =>
    rw [length_encodeAll_cons, length_encode, List.length_cons]
    omega

/-- All blocks are read if and only if there are blocks that fit, in their written form and with
the terminator behind them, and enough attempts for all of these. -/
theorem readAll_eq_ok_iff {attempts : Nat} {blocks : List Block} :
    readAll attempts r = .ok (blocks, behind)
      ↔ ∃ pieces, blocks = placed r.position pieces ∧ (∀ piece ∈ pieces, Fits piece)
        ∧ pieces.length < attempts ∧ r.Passes (encodeAll pieces ++ terminator) behind := by
  induction attempts generalizing r blocks with
  | zero =>
    constructor
    · intro h
      cases h
    · rintro ⟨pieces, -, -, hlength, -⟩
      exact absurd hlength (Nat.not_lt_zero _)
  | succ attempts ih =>
    unfold readAll
    constructor
    · intro h
      obtain ⟨⟨found, middle⟩, hread, h⟩ := bind_eq_ok_iff.mp h
      rcases read?_eq_ok hread with ⟨rfl, hterminator⟩ | ⟨block, rfl, hoffset, hfits, hpasses⟩
      · cases h
        refine ⟨[], rfl, fun piece hpiece => ?_, Nat.succ_pos _, hterminator⟩
        contradiction
      · obtain ⟨⟨rest, last⟩, hrest, h⟩ := bind_eq_ok_iff.mp h
        cases h
        obtain ⟨pieces, rfl, hall, hlength, hlast⟩ := ih.mp hrest
        refine ⟨(block.uncompressedLength, block.payload) :: pieces, ?_, ?_,
          Nat.succ_lt_succ hlength, ?_⟩
        · rw [placed, hpasses.position, ← hoffset]
        · intro piece hpiece
          rcases List.mem_cons.mp hpiece with rfl | hpiece
          · exact hfits
          · exact hall piece hpiece
        · have hboth := hpasses.append hlast
          rw [← List.append_assoc] at hboth
          exact hboth
    · rintro ⟨pieces, rfl, hall, hlength, hpasses⟩
      cases pieces with
      | nil =>
        rw [read?_terminator hpasses]
        rfl
      | cons piece pieces =>
        have hparts : r.Passes (encode piece.1 piece.2 ++ (encodeAll pieces ++ terminator))
            behind := by
          rw [← List.append_assoc]
          exact hpasses
        obtain ⟨middle, hfirst, hrest⟩ := hparts.exists_middle
        have hread := read?_encode (hall piece List.mem_cons_self) hfirst
        have hlater := ih.mpr ⟨pieces, rfl,
          fun later hlater => hall later (List.mem_cons_of_mem _ hlater),
          Nat.lt_of_succ_lt_succ hlength, hrest⟩
        refine bind_eq_ok_iff.mpr ⟨_, hread, ?_⟩
        refine bind_eq_ok_iff.mpr ⟨_, hlater, ?_⟩
        rw [hfirst.position]
        rfl

end Block

namespace Image

/-- An image is read if and only if its header is there and the bytes that it claims are. -/
theorem read_eq_ok_iff {r : Reader} {image : Image} :
    read r = .ok image
      ↔ image.offset = r.position
        ∧ (∃ more, r.rest = Word.toBytes streamSignature ++ Word.toBytes image.entry
            ++ Word.toBytes image.paragraphs ++ more)
        ∧ image.paragraphs.toNat * paragraph ≤ r.remaining
        ∧ image.code = r.rest.take (image.paragraphs.toNat * paragraph) := by
  unfold read
  constructor
  · intro h
    obtain ⟨⟨signature, r₁⟩, hsignature, h⟩ := bind_eq_ok_iff.mp h
    dsimp only at h
    split at h
    case isTrue => cases h
    case isFalse hsame =>
      obtain rfl := Decidable.of_not_not hsame
      obtain ⟨⟨entry, r₂⟩, hentry, h⟩ := bind_eq_ok_iff.mp h
      obtain ⟨⟨paragraphs, r₃⟩, hparagraphs, h⟩ := bind_eq_ok_iff.mp h
      dsimp only at h
      split at h
      case isTrue => cases h
      case isFalse hroom =>
        cases h
        have hpasses := ((nextWord_eq_ok_iff.mp hsignature).append
          (nextWord_eq_ok_iff.mp hentry)).append (nextWord_eq_ok_iff.mp hparagraphs)
        exact ⟨rfl, ⟨r₃.rest, hpasses.rest⟩, Nat.le_of_not_lt hroom, rfl⟩
  · rintro ⟨hoffset, ⟨more, hrest⟩, hroom, hcode⟩
    have hpasses : r.Passes (Word.toBytes streamSignature ++ Word.toBytes image.entry
        ++ Word.toBytes image.paragraphs) ⟨r.position + 6, more⟩ := ⟨hrest, rfl⟩
    obtain ⟨r₂, hfront, hparagraphs⟩ := hpasses.exists_middle
    obtain ⟨r₁, hsignature, hentry⟩ := hfront.exists_middle
    obtain ⟨offset, entry, paragraphs, code⟩ := image
    dsimp only at hoffset hcode
    subst hoffset hcode
    refine bind_eq_ok_iff.mpr ⟨_, nextWord_eq_ok_iff.mpr hsignature, ?_⟩
    refine bind_eq_ok_iff.mpr ⟨_, nextWord_eq_ok_iff.mpr hentry, ?_⟩
    refine bind_eq_ok_iff.mpr ⟨_, nextWord_eq_ok_iff.mpr hparagraphs, ?_⟩
    dsimp only
    rw [if_neg (Nat.not_lt.mpr hroom)]
    rfl

end Image

namespace Container

open Block

theorem encodeBlocks_eq (pieces : List (Word × List Byte)) :
    encodeBlocks pieces = Word.toBytes streamSignature ++ (encodeAll pieces ++ terminator) :=
  List.append_assoc _ _ _

/-- What precedes an image in its written form: blocks that fit, between the signature and the
terminator, and a gap of the length of the padding. -/
structure Front.Written (front : Front) (bytes : List Byte) (pieces : List (Word × List Byte))
    (gap : List Byte) : Prop where
  fits : ∀ piece ∈ pieces, Fits piece
  written : bytes = encodeBlocks pieces ++ gap ++ front.imageReader.rest
  gapLength : gap.length = Reader.padding paragraph (encodeBlocks pieces).length
  blocks : front.blocks = placed 2 pieces
  padding : front.padding = gap.length
  position : front.imageReader.position = (encodeBlocks pieces).length + gap.length

variable {bytes gap : List Byte} {front : Front} {pieces : List (Word × List Byte)}

/-- The gap is measured from the beginning of the stream. -/
theorem position_behind_blocks {r : Reader}
    (h : (Reader.ofBytes bytes).Passes (encodeBlocks pieces) r) :
    r.position = (encodeBlocks pieces).length := by
  rw [h.position]
  exact Nat.zero_add _

theorem exists_written_of_readFront (h : readFront bytes = .ok front) :
    ∃ pieces gap, front.Written bytes pieces gap := by
  unfold readFront at h
  obtain ⟨⟨signature, r₁⟩, hsignature, h⟩ := bind_eq_ok_iff.mp h
  dsimp only at h
  split at h
  case isTrue => cases h
  case isFalse hsame =>
    obtain rfl := Decidable.of_not_not hsame
    obtain ⟨⟨blocks, r₂⟩, hblocks, h⟩ := bind_eq_ok_iff.mp h
    obtain ⟨⟨skipped, r₃⟩, hskipped, h⟩ := bind_eq_ok_iff.mp h
    cases h
    have hfirst := nextWord_eq_ok_iff.mp hsignature
    obtain ⟨pieces, rfl, hall, -, hpieces⟩ := readAll_eq_ok_iff.mp hblocks
    obtain ⟨rfl, gap, hgap, hover⟩ := nextMultiple_eq_ok_iff.mp hskipped
    have hwhole := hfirst.append hpieces
    rw [← encodeBlocks_eq] at hwhole
    have hposition := position_behind_blocks hwhole
    refine ⟨pieces, gap, hall, (hwhole.append hover).rest, ?_, ?_, hgap.symm, ?_⟩
    · rw [hgap, hposition]
    · rw [hfirst.position]
      rfl
    · rw [← hposition, ← hover.position]

/-- An attempt is made for every byte that is left, and no block is as short as that. -/
theorem length_lt_remaining {r behind : Reader}
    (h : r.Passes (encodeAll pieces ++ terminator) behind) : pieces.length < r.remaining := by
  have hcount := length_le_length_encodeAll pieces
  unfold remaining
  rw [h.rest, List.length_append, List.length_append]
  show _ < _ + 3 + _
  omega

theorem readFront_of_written (h : front.Written bytes pieces gap) :
    readFront bytes = .ok front := by
  obtain ⟨hall, rfl, hgap, hblocks, hpadding, hbehind⟩ := h
  obtain ⟨blocks, skipped, behind⟩ := front
  dsimp only at hblocks hpadding hbehind
  subst hblocks hpadding
  have hpasses : (Reader.ofBytes (encodeBlocks pieces ++ gap ++ behind.rest)).Passes
      (encodeBlocks pieces ++ gap) behind := by
    refine ⟨rfl, ?_⟩
    rw [hbehind, List.length_append]
    exact (Nat.zero_add _).symm
  obtain ⟨r₂, hwhole, hover⟩ := hpasses.exists_middle
  have hposition := position_behind_blocks hwhole
  rw [encodeBlocks_eq] at hwhole
  obtain ⟨r₁, hfirst, hpieces⟩ := hwhole.exists_middle
  have hread := readAll_eq_ok_iff.mpr ⟨pieces, rfl, hall, length_lt_remaining hpieces, hpieces⟩
  have hskip := nextMultiple_eq_ok_iff.mpr ⟨hgap.trans (by rw [hposition]), gap, rfl, hover⟩
  unfold readFront
  refine bind_eq_ok_iff.mpr ⟨_, nextWord_eq_ok_iff.mpr hfirst, ?_⟩
  refine bind_eq_ok_iff.mpr ⟨_, hread, ?_⟩
  refine bind_eq_ok_iff.mpr ⟨_, hskip, ?_⟩
  rw [hfirst.position]
  rfl

theorem readFront_eq_ok_iff :
    readFront bytes = .ok front ↔ ∃ pieces gap, front.Written bytes pieces gap := by
  constructor
  · exact exists_written_of_readFront
  · rintro ⟨pieces, gap, hwritten⟩
    exact readFront_of_written hwritten

/-- Parsing succeeds if and only if an image follows what precedes it. -/
theorem parse_eq_ok_iff {container : Container} :
    parse bytes = .ok container
      ↔ ∃ pieces gap rest, (∀ piece ∈ pieces, Fits piece)
        ∧ bytes = encodeBlocks pieces ++ gap ++ rest
        ∧ gap.length = padding paragraph (encodeBlocks pieces).length
        ∧ container.blocks = placed 2 pieces
        ∧ Image.read ⟨(encodeBlocks pieces).length + gap.length, rest⟩ = .ok container.image := by
  unfold parse
  constructor
  · intro h
    obtain ⟨⟨blocks, skipped, behind⟩, hfront, h⟩ := bind_eq_ok_iff.mp h
    obtain ⟨image, himage, h⟩ := bind_eq_ok_iff.mp h
    cases h
    obtain ⟨pieces, gap, hall, hbytes, hgap, hblocks, -, hbehind⟩ :=
      readFront_eq_ok_iff.mp hfront
    refine ⟨pieces, gap, behind.rest, hall, hbytes, hgap, hblocks, ?_⟩
    rw [← hbehind]
    exact himage
  · rintro ⟨pieces, gap, rest, hall, hbytes, hgap, hblocks, himage⟩
    obtain ⟨blocks, image⟩ := container
    have hfront : readFront bytes
        = .ok ⟨blocks, gap.length, ⟨(encodeBlocks pieces).length + gap.length, rest⟩⟩ :=
      readFront_eq_ok_iff.mpr ⟨pieces, gap, hall, hbytes, hgap, hblocks, rfl, rfl⟩
    refine bind_eq_ok_iff.mpr ⟨_, hfront, ?_⟩
    exact bind_eq_ok_iff.mpr ⟨image, himage, rfl⟩

/-- The blocks that parsing finds have payloads whose lengths are words other than zero. -/
theorem fits_of_parse_eq_ok {container : Container}
    (h : parse bytes = .ok container) {block : Block} (hblock : block ∈ container.blocks) :
    Fits (block.uncompressedLength, block.payload) := by
  obtain ⟨pieces, gap, rest, hall, -, -, hblocks, -⟩ := parse_eq_ok_iff.mp h
  rw [hblocks] at hblock
  exact hall _ (exists_mem_of_mem_placed hblock)

end Container

end CmStream
