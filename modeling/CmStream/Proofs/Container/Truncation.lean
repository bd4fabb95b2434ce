import CmStream.Container.Routine
import CmStream.Proofs.Container.Grammar

/-!
# Streams that are cut off or go on

A stream that ends too early fails with an overrun at its end, wherever among its blocks, in its
padding or in the header of its image it has been cut; only behind that header is it the image that
is too long. What is there behind the image makes no difference.
-/

namespace CmStream

/-- A reading has failed because the bytes end at the given place: it wanted more bytes than were
left there. -/
def CutShort {α : Type} (finish : Nat) (x : Except FormatError α) : Prop :=
  ∃ o : Overrun, x = .error (.overrun o) ∧ o.offset + o.available = finish ∧ o.available < o.wanted

namespace CutShort

variable {α β : Type} {finish : Nat} {x : Except FormatError α} {f : α → Except FormatError β}

theorem bind (h : CutShort finish x) : CutShort finish (x >>= f) := by
  obtain ⟨o, rfl, hplace⟩ := h
  exact ⟨o, rfl, hplace⟩

theorem bind_of_ok {a : α} (hx : x = .ok a) (h : CutShort finish (f a)) :
    CutShort finish (x >>= f) := by
  subst hx
  exact h

end CutShort

namespace Reader

/-- Where the bytes of a reader end. -/
def finish (r : Reader) : Nat := r.position + r.remaining

variable {r behind : Reader} {bytes more : List Byte}

theorem Passes.finish_eq (h : r.Passes bytes behind) : behind.finish = r.finish := by
  unfold finish remaining
  rw [h.position, h.rest, List.length_append]
  omega

/-! ## Single reads -/

theorem cutShort_nextByte (h : r.remaining < 1) : CutShort r.finish r.nextByte := by
  obtain ⟨position, rest⟩ := r
  obtain rfl : rest = [] := List.eq_nil_of_length_eq_zero (Nat.lt_one_iff.mp h)
  exact ⟨⟨position, 1, 0⟩, rfl, rfl, Nat.zero_lt_one⟩

theorem cutShort_nextWord (h : r.remaining < 2) : CutShort r.finish r.nextWord := by
  obtain ⟨position, rest⟩ := r
  match rest, h with
  | [], _ => exact ⟨⟨position, 2, 0⟩, rfl, rfl, Nat.zero_lt_two⟩
  | [first], _ => exact ⟨⟨position, 2, 1⟩, rfl, rfl, Nat.one_lt_two⟩
  | first :: second :: rest, h =>
    simp only [remaining, List.length_cons] at h
    omega

theorem cutShort_nextBytes {n : Nat} (h : r.remaining < n) : CutShort r.finish (r.nextBytes n) := by
  unfold nextBytes
  rw [take_eq_error h]
  exact ⟨_, rfl, rfl, h⟩

theorem cutShort_nextMultiple {m : Nat} (h : r.remaining < padding m r.position) :
    CutShort r.finish (r.nextMultiple m) := by
  unfold nextMultiple align
  rw [take_eq_error h]
  exact ⟨_, rfl, rfl, h⟩

/-! ## Sequences of reads -/

/-- All that is left are some first bytes of the given ones, and not all of them. -/
structure FallsShort (r : Reader) (bytes : List Byte) : Prop where
  front : r.rest <+: bytes
  short : r.remaining < bytes.length

/-- Short of a concatenation, the bytes end in its first part, or behind that in its second. -/
theorem FallsShort.append (h : r.FallsShort (bytes ++ more)) :
    r.FallsShort bytes ∨ ∃ behind, r.Passes bytes behind ∧ behind.FallsShort more := by
  obtain ⟨hfront, hshort⟩ := h
  rcases Nat.lt_or_ge r.remaining bytes.length with hlt | hge
  · exact .inl ⟨List.prefix_of_prefix_length_le hfront (List.prefix_append _ _) (Nat.le_of_lt hlt),
      hlt⟩
  · -- The first part is there in full, and what is left behind it falls short of the second.
    obtain ⟨rest, hrest⟩ :=
      List.prefix_of_prefix_length_le (List.prefix_append bytes more) hfront hge
    refine .inr ⟨⟨r.position + bytes.length, rest⟩, ⟨hrest.symm, rfl⟩, ?_, ?_⟩
    · rw [← hrest] at hfront
      exact (List.prefix_append_right_inj bytes).mp hfront
    · unfold remaining at hshort ⊢
      rw [← hrest, List.length_append, List.length_append] at hshort
      exact Nat.lt_of_add_lt_add_left hshort

end Reader

namespace Block

open Reader

variable {r : Reader}

theorem cutShort_read?_terminator (h : r.FallsShort terminator) : CutShort r.finish (read? r) := by
  have hparts : r.FallsShort ([0] ++ Word.toBytes 0) := h
  unfold read?
  rcases hparts.append with hvalidity | ⟨r₁, hvalidity, hlength⟩
  · exact (cutShort_nextByte hvalidity.short).bind
  · refine .bind_of_ok (nextByte_eq_ok_iff.mpr hvalidity) ?_
    rw [← hvalidity.finish_eq]
    exact (cutShort_nextWord hlength.short).bind

theorem cutShort_read?_encode {uncompressedLength : Word} {payload : List Byte}
    (hfits : Fits (uncompressedLength, payload))
    (h : r.FallsShort (encode uncompressedLength payload)) : CutShort r.finish (read? r) := by
  have hparts : r.FallsShort ([1] ++ (Word.toBytes (BitVec.ofNat 16 payload.length)
      ++ (Word.toBytes uncompressedLength ++ payload))) := by
    rw [← List.append_assoc]
    exact h
  have hcount : (BitVec.ofNat 16 payload.length).toNat = payload.length :=
    Word.toNat_ofNat_of_lt (Nat.lt_succ_of_le hfits.2)
  have hnonzero : (BitVec.ofNat 16 payload.length != 0) = true := by
    rw [bne_iff_ne]
    intro hzero
    rw [hzero] at hcount
    exact absurd hcount.symm (Nat.ne_of_gt hfits.1)
  unfold read?
  rcases hparts.append with hshort | ⟨r₁, hvalidity, hparts⟩
  · exact (cutShort_nextByte hshort.short).bind
  refine .bind_of_ok (nextByte_eq_ok_iff.mpr hvalidity) ?_
  rw [← hvalidity.finish_eq]
  rcases hparts.append with hshort | ⟨r₂, hlength, hparts⟩
  · exact (cutShort_nextWord hshort.short).bind
  refine .bind_of_ok (nextWord_eq_ok_iff.mpr hlength) ?_
  rw [← hlength.finish_eq]
  dsimp only
  rw [hnonzero]
  rcases hparts.append with hshort | ⟨r₃, huncompressed, hpayload⟩
  · exact (cutShort_nextWord hshort.short).bind
  refine .bind_of_ok (nextWord_eq_ok_iff.mpr huncompressed) ?_
  rw [← huncompressed.finish_eq]
  dsimp only
  rw [hcount]
  exact (cutShort_nextBytes hpayload.short).bind

/-- Wherever the bytes end among some blocks or in the terminator, reading the blocks wants more. -/
theorem cutShort_readAll {attempts : Nat} {pieces : List (Word × List Byte)}
    (hfits : ∀ piece ∈ pieces, Fits piece) (hattempts : r.remaining ≤ attempts)
    (h : r.FallsShort (encodeAll pieces ++ terminator)) :
    CutShort r.finish (readAll attempts r) := by
  induction attempts generalizing r pieces with
  | zero =>
    have hnone : r.remaining = 0 := Nat.le_zero.mp hattempts
    unfold readAll
    exact ⟨_, rfl, rfl, by rw [hnone]; exact Nat.zero_lt_one⟩
  | succ attempts ih =>
    unfold readAll
    cases pieces with
    | nil => exact (cutShort_read?_terminator h).bind
    | cons piece pieces =>
      have hpiece := hfits piece List.mem_cons_self
      have hparts : r.FallsShort (encode piece.1 piece.2 ++ (encodeAll pieces ++ terminator)) := by
        rw [← List.append_assoc]
        exact h
      rcases hparts.append with hshort | ⟨behind, hfirst, hrest⟩
      · exact (cutShort_read?_encode hpiece hshort).bind
      · -- A block takes up bytes, so the attempts that are left are enough for what is left.
        have hfewer : behind.remaining ≤ attempts := by
          have hlength := length_encode piece.1 piece.2
          have hsum := hfirst.finish_eq
          have hmoved := hfirst.position
          unfold finish at hsum
          omega
        have hlater := ih (fun later hlater => hfits later (List.mem_cons_of_mem _ hlater)) hfewer
          hrest
        rw [hfirst.finish_eq] at hlater
        exact .bind_of_ok (read?_encode hpiece hfirst) hlater.bind

end Block

namespace Image

open Reader

variable {r : Reader} {image : Image}

/-- The header of an image as it stands in a stream. -/
def header (entry paragraphs : Word) : List Byte :=
  Word.toBytes streamSignature ++ Word.toBytes entry ++ Word.toBytes paragraphs

theorem cutShort_read {entry paragraphs : Word} (h : r.FallsShort (header entry paragraphs)) :
    CutShort r.finish (read r) := by
  unfold header at h
  rw [List.append_assoc] at h
  unfold read
  rcases h.append with hshort | ⟨r₁, hsignature, h⟩
  · exact (cutShort_nextWord hshort.short).bind
  refine .bind_of_ok (nextWord_eq_ok_iff.mpr hsignature) ?_
  rw [← hsignature.finish_eq]
  dsimp only
  rw [if_neg (not_not_intro rfl)]
  rcases h.append with hshort | ⟨r₂, hentry, hparagraphs⟩
  · exact (cutShort_nextWord hshort.short).bind
  refine .bind_of_ok (nextWord_eq_ok_iff.mpr hentry) ?_
  rw [← hentry.finish_eq]
  exact (cutShort_nextWord hparagraphs.short).bind

/-- The number of bytes that reading an image looks at, from the beginning of the image on. -/
def extent (image : Image) : Nat := max headerLength (image.paragraphs.toNat * paragraph)

theorem extent_le_remaining (h : read r = .ok image) : image.extent ≤ r.remaining := by
  obtain ⟨-, ⟨more, hrest⟩, hroom, -⟩ := read_eq_ok_iff.mp h
  refine Nat.max_le.mpr ⟨?_, hroom⟩
  unfold remaining
  rw [hrest, List.length_append]
  exact Nat.le_add_right headerLength more.length

/-- Bytes that agree as far as reading an image looks at them hold the same image. -/
theorem read_of_take_eq {rest : List Byte} (h : read r = .ok image)
    (hsame : rest.take image.extent = r.rest.take image.extent) :
    read ⟨r.position, rest⟩ = .ok image := by
  have hextent := extent_le_remaining h
  obtain ⟨hoffset, ⟨more, hrest⟩, -, hcode⟩ := read_eq_ok_iff.mp h
  have hheader : headerLength ≤ image.extent := Nat.le_max_left _ _
  have hlength : image.paragraphs.toNat * paragraph ≤ image.extent := Nat.le_max_right _ _
  have henough : image.extent ≤ rest.length := by
    have hcount := congrArg List.length hsame
    rw [List.length_take, List.length_take] at hcount
    unfold remaining at hextent
    omega
  refine read_eq_ok_iff.mpr ⟨hoffset, ?_, Nat.le_trans hlength henough, ?_⟩
  · have hfront : rest.take headerLength = r.rest.take headerLength := by
      have hcut := congrArg (List.take headerLength) hsame
      rw [List.take_take, List.take_take, Nat.min_eq_left hheader] at hcut
      exact hcut
    refine ⟨rest.drop headerLength, ?_⟩
    have hsplit := List.take_append_drop headerLength rest
    rw [hfront, hrest] at hsplit
    exact hsplit.symm
  · have hcut := congrArg (List.take (image.paragraphs.toNat * paragraph)) hsame
    rw [List.take_take, List.take_take, Nat.min_eq_left hlength] at hcut
    exact hcode.trans hcut.symm

/-- An image whose header is there is too long if fewer bytes are there than it claims. -/
theorem read_eq_tooLong {entry paragraphs : Word} (hheader : header entry paragraphs <+: r.rest)
    (hlong : r.remaining < paragraphs.toNat * paragraph) :
    read r = .error (.imageTooLong r.position (paragraphs.toNat * paragraph) r.remaining) := by
  obtain ⟨more, hrest⟩ := hheader
  have hpasses : r.Passes (header entry paragraphs) ⟨r.position + headerLength, more⟩ :=
    ⟨hrest.symm, rfl⟩
  obtain ⟨r₂, hfront, hparagraphs⟩ := hpasses.exists_middle
  obtain ⟨r₁, hsignature, hentry⟩ := hfront.exists_middle
  unfold read
  rw [nextWord_eq_ok_iff.mpr hsignature]
  show (r₁.nextWord >>= _) = _
  rw [nextWord_eq_ok_iff.mpr hentry]
  show (r₂.nextWord >>= _) = _
  rw [nextWord_eq_ok_iff.mpr hparagraphs]
  exact if_pos hlong

end Image

namespace Container

open Block Reader Image

variable {bytes gap : List Byte} {pieces : List (Word × List Byte)} {container : Container}

/-! ## Whole streams -/

theorem cutShort_readFront (hfits : ∀ piece ∈ pieces, Fits piece)
    (hgap : gap.length = padding paragraph (encodeBlocks pieces).length)
    (h : (Reader.ofBytes bytes).FallsShort (encodeBlocks pieces ++ gap)) :
    CutShort bytes.length (readFront bytes) := by
  have hfinish : (Reader.ofBytes bytes).finish = bytes.length := Nat.zero_add _
  rw [← hfinish]
  unfold readFront
  rcases h.append with hblocks | ⟨behind, hblocks, hover⟩
  · rw [encodeBlocks_eq] at hblocks
    rcases hblocks.append with hshort | ⟨r, hsignature, hshort⟩
    · exact (cutShort_nextWord hshort.short).bind
    · refine .bind_of_ok (nextWord_eq_ok_iff.mpr hsignature) ?_
      rw [← hsignature.finish_eq]
      exact (cutShort_readAll hfits (Nat.le_refl _) hshort).bind
  · -- All blocks are there, so that it is the padding that ends too early.
    have hposition := position_behind_blocks hblocks
    rw [encodeBlocks_eq] at hblocks
    obtain ⟨r, hsignature, hpieces⟩ := hblocks.exists_middle
    have hread := readAll_eq_ok_iff.mpr ⟨pieces, rfl, hfits, length_lt_remaining hpieces, hpieces⟩
    have hshort := hover.short
    rw [hgap, ← hposition] at hshort
    refine .bind_of_ok (nextWord_eq_ok_iff.mpr hsignature) (.bind_of_ok hread ?_)
    rw [← hsignature.finish_eq, ← hpieces.finish_eq]
    exact (cutShort_nextMultiple hshort).bind

/-- Behind what precedes the image, parsing is reading the image. -/
theorem parse_written (hfits : ∀ piece ∈ pieces, Fits piece)
    (hgap : gap.length = padding paragraph (encodeBlocks pieces).length) (rest : List Byte) :
    parse (encodeBlocks pieces ++ gap ++ rest)
      = (Image.read ⟨(encodeBlocks pieces).length + gap.length, rest⟩).map
          fun image => ⟨placed 2 pieces, image⟩ := by
  have hfront : readFront (encodeBlocks pieces ++ gap ++ rest)
      = .ok ⟨placed 2 pieces, gap.length, ⟨(encodeBlocks pieces).length + gap.length, rest⟩⟩ :=
    readFront_of_written ⟨hfits, rfl, hgap, rfl, rfl, rfl⟩
  unfold parse
  rw [hfront]
  rfl

theorem cutShort_parse {entry paragraphs : Word} (hfits : ∀ piece ∈ pieces, Fits piece)
    (hgap : gap.length = padding paragraph (encodeBlocks pieces).length)
    (h : (Reader.ofBytes bytes).FallsShort
      (encodeBlocks pieces ++ gap ++ Image.header entry paragraphs)) :
    CutShort bytes.length (parse bytes) := by
  rcases h.append with hfront | ⟨behind, hfront, himage⟩
  · unfold parse
    exact (cutShort_readFront hfits hgap hfront).bind
  · have hposition : behind = ⟨(encodeBlocks pieces).length + gap.length, behind.rest⟩ := by
      have hmoved := hfront.position
      rw [List.length_append] at hmoved
      rw [← Nat.zero_add (_ + _)]
      exact congrArg (Reader.mk · behind.rest) hmoved
    have hbytes : bytes = encodeBlocks pieces ++ gap ++ behind.rest := hfront.rest
    have hfinish : behind.finish = bytes.length := hfront.finish_eq.trans (Nat.zero_add _)
    rw [← hfinish, hbytes, parse_written hfits hgap, ← hposition]
    obtain ⟨o, hread, hplace⟩ := Image.cutShort_read himage
    exact ⟨o, by rw [hread]; rfl, hplace⟩

/-- The number of bytes of a stream that parsing it looks at. -/
def extent (container : Container) : Nat := container.image.offset + container.image.extent

/-! ## The three places of a cut -/

section Cuts

variable {rest : List Byte} {image : Image} {n : Nat}
variable (hfits : ∀ piece ∈ pieces, Fits piece)
variable (hgap : gap.length = padding paragraph (encodeBlocks pieces).length)
variable (himage : Image.read ⟨(encodeBlocks pieces).length + gap.length, rest⟩ = .ok image)

include himage

theorem length_front_of_read : (encodeBlocks pieces ++ gap).length = image.offset := by
  rw [List.length_append]
  exact (Image.read_eq_ok_iff.mp himage).1.symm

theorem take_behind_front (hn : image.offset ≤ n) : (encodeBlocks pieces ++ gap ++ rest).take n
    = encodeBlocks pieces ++ gap ++ rest.take (n - image.offset) := by
  have hfront := length_front_of_read himage
  rw [List.take_append, List.take_of_length_le (by omega), hfront]

include hfits hgap

/-- Cut before the end of the image's header, at the latest. -/
theorem cutShort_parse_take (hn : n < image.offset + headerLength) :
    CutShort n (parse ((encodeBlocks pieces ++ gap ++ rest).take n)) := by
  have hfront := length_front_of_read himage
  obtain ⟨-, ⟨more, hrest⟩, -, -⟩ := Image.read_eq_ok_iff.mp himage
  have hheader : rest = Image.header image.entry image.paragraphs ++ more := hrest
  have hcount : (encodeBlocks pieces ++ gap
      ++ Image.header image.entry image.paragraphs).length = image.offset + headerLength := by
    rw [List.length_append, hfront]
    rfl
  have htaken : ((encodeBlocks pieces ++ gap ++ rest).take n).length = n := by
    rw [hheader, ← List.append_assoc]
    exact List.length_take_of_le (by simp only [List.length_append] at hcount ⊢; omega)
  have hshort : (Reader.ofBytes ((encodeBlocks pieces ++ gap ++ rest).take n)).FallsShort
      (encodeBlocks pieces ++ gap ++ Image.header image.entry image.paragraphs) := by
    refine ⟨?_, ?_⟩
    · show (encodeBlocks pieces ++ gap ++ rest).take n <+: _
      rw [hheader, ← List.append_assoc, List.take_append_of_le_length (by omega)]
      exact List.take_prefix n _
    · show ((encodeBlocks pieces ++ gap ++ rest).take n).length < _
      omega
  have hcut := cutShort_parse hfits hgap hshort
  rw [htaken] at hcut
  exact hcut

/-- Cut behind the image's header, before the end of what that claims. -/
theorem parse_take_eq_tooLong (hleast : image.offset + headerLength ≤ n)
    (hmost : n < image.offset + image.extent) :
    parse ((encodeBlocks pieces ++ gap ++ rest).take n) = .error (.imageTooLong image.offset
      (image.paragraphs.toNat * paragraph) (n - image.offset)) := by
  obtain ⟨hoffset, ⟨more, hrest⟩, -, -⟩ := Image.read_eq_ok_iff.mp himage
  dsimp only at hoffset
  have hextent : image.extent ≤ rest.length := Image.extent_le_remaining himage
  have hkept : (rest.take (n - image.offset)).length = n - image.offset :=
    List.length_take_of_le (by omega)
  have hheader : Image.header image.entry image.paragraphs <+: rest.take (n - image.offset) := by
    refine List.prefix_take_iff.mpr ⟨⟨more, hrest.symm⟩, ?_⟩
    show headerLength ≤ n - image.offset
    omega
  have hlong : (rest.take (n - image.offset)).length < image.paragraphs.toNat * paragraph := by
    unfold Image.extent at hmost
    omega
  have hread := Image.read_eq_tooLong (r := ⟨image.offset, rest.take (n - image.offset)⟩)
    hheader hlong
  have hremaining : Reader.remaining ⟨image.offset, rest.take (n - image.offset)⟩
      = n - image.offset := hkept
  rw [take_behind_front himage (by omega), parse_written hfits hgap, ← hoffset, hread, hremaining]
  rfl

/-- Bytes that agree as far as parsing looks at them hold the same. -/
theorem parse_written_of_take_eq {other : List Byte}
    (hsame : other.take image.extent = rest.take image.extent) :
    parse (encodeBlocks pieces ++ gap ++ other) = .ok ⟨placed 2 pieces, image⟩ := by
  rw [parse_written hfits hgap, Image.read_of_take_eq himage hsame]
  rfl

end Cuts

/-- Cut off within the bytes that parsing looks at, a stream is too short, and the error says
where: up to the end of the image's header it is an overrun at the cut, and behind that header the
image is longer than what is left of it. All other bytes behind can be dropped, or followed by
any others, without a difference. -/
theorem parse_take_append (hparse : parse bytes = .ok container) :
    container.extent ≤ bytes.length
      ∧ (∀ n, n < container.image.offset + 6 →
          ∃ o : Overrun, parse (bytes.take n) = .error (.overrun o)
            ∧ o.offset + o.available = n ∧ o.available < o.wanted)
      ∧ (∀ n, container.image.offset + 6 ≤ n → n < container.extent →
          parse (bytes.take n) = .error (.imageTooLong container.image.offset
            (container.image.paragraphs.toNat * 16) (n - container.image.offset)))
      ∧ (∀ n, container.extent ≤ n → parse (bytes.take n) = .ok container)
      ∧ ∀ more, parse (bytes ++ more) = .ok container := by
  obtain ⟨pieces, gap, rest, hfits, rfl, hgap, hblocks, himage⟩ := parse_eq_ok_iff.mp hparse
  obtain ⟨blocks, image⟩ := container
  dsimp only at hblocks himage
  subst hblocks
  have hextent : image.extent ≤ rest.length := Image.extent_le_remaining himage
  refine ⟨?_, fun n hn => cutShort_parse_take hfits hgap himage hn,
    fun n hleast hmost => parse_take_eq_tooLong hfits hgap himage hleast hmost, ?_, ?_⟩
  · have hfront := length_front_of_read himage
    rw [List.length_append, hfront]
    exact Nat.add_le_add_left hextent image.offset
  · intro n hn
    have hbehind : image.offset + image.extent ≤ n := hn
    rw [take_behind_front himage (by omega)]
    refine parse_written_of_take_eq hfits hgap himage ?_
    rw [List.take_take, Nat.min_eq_left (by omega)]
  · intro more
    rw [List.append_assoc]
    exact parse_written_of_take_eq hfits hgap himage (List.take_append_of_le_length hextent)

/-- A stream of one block whose image has two paragraphs, cut off in the block, in the image and
right behind it, and with one more byte behind it. -/
theorem parse_take_append_one_block :
    let bytes := encode [copiedBlock [7, 8]] (Routine.copy ++ List.replicate 10 0x90)
    let container := Container.mk [⟨2, 2, Block.payloadOf 2 [7, 8]⟩] ⟨32, 6, 2, bytes.drop 32⟩
    parse bytes = .ok container
      ∧ container.extent = 64
      ∧ CutShort 9 (parse (bytes.take 9))
      ∧ parse (bytes.take 50) = .error (.imageTooLong 32 32 18)
      ∧ parse (bytes.take 64) = .ok container
      ∧ parse (bytes ++ [1]) = .ok container := by
  intro bytes container
  have hparse : parse bytes = .ok container := by with_unfolding_all rfl
  obtain ⟨-, hcut, hlong, henough, hmore⟩ := parse_take_append hparse
  exact ⟨hparse, by decide, hcut 9 (by decide), hlong 50 (by decide) (by decide),
    henough 64 (by decide), hmore [1]⟩

end Container

end CmStream
