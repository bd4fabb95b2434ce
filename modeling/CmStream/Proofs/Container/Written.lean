import CmStream.Proofs.Container.Grammar

/-!
# Reading what has been written

The image of a routine is a whole number of paragraphs and comes back as it was written, and so
does a stream with its blocks. The routine lies in the image at its entry point.
-/

namespace CmStream

open Reader

namespace Image

variable {entry : Word} {routine : List Byte}

/-- The number of bytes up to the end of the routine. -/
def bareLength (entry : Word) (routine : List Byte) : Nat :=
  headerLength + ((entry.toNat - headerLength) + routine.length)

theorem length_encodeAt (entry : Word) (routine : List Byte) :
    (encodeAt entry routine).length
      = bareLength entry routine + padding paragraph (bareLength entry routine) := by
  unfold encodeAt paragraphPadding bareLength Word.toBytes
  simp only [List.length_append, List.length_replicate, List.length_cons, List.length_nil]
  rfl

/-- An image is a whole number of paragraphs. -/
theorem paragraph_dvd_length_encodeAt (entry : Word) (routine : List Byte) :
    paragraph ∣ (encodeAt entry routine).length := by
  rw [length_encodeAt]
  exact dvd_position_add_padding (by decide) _

/-- The number of paragraphs that stands in the header. -/
def paragraphsOf (entry : Word) (routine : List Byte) : Word :=
  BitVec.ofNat 16 ((encodeAt entry routine).length / paragraph)

/-- The header, the gap, the routine and the padding. -/
theorem encodeAt_eq (entry : Word) (routine : List Byte) :
    encodeAt entry routine = Word.toBytes streamSignature ++ Word.toBytes entry
      ++ Word.toBytes (paragraphsOf entry routine)
      ++ List.replicate (entry.toNat - headerLength) 0xf4 ++ routine
      ++ paragraphPadding (bareLength entry routine) := by
  unfold paragraphsOf
  rw [length_encodeAt]
  unfold encodeAt paragraphPadding bareLength
  simp only [List.length_append, List.length_replicate, List.append_assoc]

/-- The routine begins at the entry point. -/
theorem exists_encodeAt_eq_append (hentry : headerLength ≤ entry.toNat) (routine : List Byte) :
    ∃ front tail, encodeAt entry routine = front ++ routine ++ tail
      ∧ front.length = entry.toNat := by
  refine ⟨_, _, encodeAt_eq entry routine, ?_⟩
  rw [List.length_append, List.length_replicate]
  show headerLength + _ = _
  omega

/-- An image with a number of paragraphs that fits into a word is read as it was written. -/
theorem read_encodeAt (position : Nat)
    (hlength : (encodeAt entry routine).length < 0x10000 * paragraph) :
    read ⟨position, encodeAt entry routine⟩
      = .ok ⟨position, entry, paragraphsOf entry routine, encodeAt entry routine⟩ := by
  have hcount : (paragraphsOf entry routine).toNat * paragraph
      = (encodeAt entry routine).length := by
    unfold paragraphsOf
    rw [Word.toNat_ofNat_of_lt, Nat.div_mul_cancel]
    · exact paragraph_dvd_length_encodeAt entry routine
    · apply Nat.div_lt_of_lt_mul
      rw [Nat.mul_comm]
      exact hlength
  rw [read_eq_ok_iff]
  dsimp only
  rw [hcount, List.take_length]
  have hheader := encodeAt_eq entry routine
  rw [List.append_assoc, List.append_assoc] at hheader
  exact ⟨rfl, ⟨_, hheader⟩, Nat.le_refl _, rfl⟩

end Image

namespace Container

open Block

/-- A stream with the image of a routine is parsed into its blocks and that image. -/
theorem parse_encode {pieces : List (Word × List Byte)} {routine : List Byte}
    (hfits : ∀ piece ∈ pieces, Fits piece)
    (hlength : (Image.encode routine).length < 0x10000 * paragraph) :
    ∃ image, parse (encode pieces routine) = .ok ⟨placed 2 pieces, image⟩
      ∧ image.entry = BitVec.ofNat 16 Image.headerLength ∧ image.code = Image.encode routine := by
  have hread (position : Nat) := Image.read_encodeAt position hlength
  have hpadding : (paragraphPadding (encodeBlocks pieces).length).length
      = padding paragraph (encodeBlocks pieces).length := List.length_replicate
  exact ⟨_, parse_eq_ok_iff.mpr ⟨pieces, _, _, hfits, rfl, hpadding, rfl, hread _⟩, rfl, rfl⟩

end Container

end CmStream
