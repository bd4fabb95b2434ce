import CmStream.Checked.Container
import CmStream.Proofs.Checked.Attempts
import CmStream.Proofs.Container.Grammar

/-!
# Parsing is defined

A cursor into an input of fewer than `1 <<< 63` bytes reads what a reader reads whose bytes are
those behind the cursor. No slice that is taken lies outside the input then, and no place in it, nor
the length of an image, is more than a number of 64 bits.
-/

namespace CmStream

namespace Reader

/-- The next byte is the one of a slice of one byte. -/
theorem nextByte_eq_bind (r : Reader) : r.nextByte
    = r.nextBytes 1 >>= fun (taken, behind) => .ok (taken.getD 0 0, behind) := by
  obtain ⟨position, rest⟩ := r
  cases rest with
  | nil => rfl
  | cons first rest => rfl

/-- The next word is made of the two bytes of a slice. -/
theorem nextWord_eq_bind (r : Reader) : r.nextWord
    = r.nextBytes 2 >>= fun (taken, behind) =>
        .ok (Word.ofBytes (taken.getD 0 0) (taken.getD 1 0), behind) := by
  obtain ⟨position, rest⟩ := r
  match rest with
  | [] => rfl
  | [_] => rfl
  | first :: second :: rest => rfl

theorem nextMultiple_eq_bind (r : Reader) (m : Nat) : r.nextMultiple m
    = r.nextBytes (padding m r.position) >>= fun (_, behind) =>
        .ok (padding m r.position, behind) := by
  unfold nextMultiple nextBytes align
  cases r.take (padding m r.position) with
  | ok taken => rfl
  | error overrun => rfl

end Reader

namespace Checked

/-- The input is no longer than the greatest number of 64 bits with a sign. -/
def Addressable (bytes : List Byte) : Prop := bytes.length < 1 <<< 63

/-- The cursor is at a place of the input, and the reader has the bytes from there on. -/
structure Cursor.Reads (bytes : List Byte) (c : Cursor) (r : Reader) : Prop where
  buffer : c.buffer = bytes
  within : c.position ≤ bytes.length
  reader : r = ⟨c.position, bytes.drop c.position⟩

namespace Cursor

variable {bytes : List Byte} {c : Cursor} {r : Reader}

/-- The same value has been read, and reading goes on from the same place. -/
inductive ReadsOn {α : Type} (bytes : List Byte) : α × Cursor → α × Reader → Prop where
  | intro (value : α) {c : Cursor} {r : Reader} (h : Reads bytes c r) :
    ReadsOn bytes (value, c) (value, r)

/-- So many bytes have been read, and reading goes on from the same place. -/
inductive Takes (bytes : List Byte) (n : Nat) :
    List Byte × Cursor → List Byte × Reader → Prop where
  | intro (taken : List Byte) (hcount : taken.length = n) {c : Cursor} {r : Reader}
    (h : Reads bytes c r) : Takes bytes n (taken, c) (taken, r)

theorem reads_ofBytes (bytes : List Byte) : Reads bytes (ofBytes bytes) (Reader.ofBytes bytes) :=
  ⟨rfl, Nat.zero_le _, rfl⟩

theorem Reads.remaining (h : Reads bytes c r) : r.remaining = bytes.length - c.position := by
  rw [h.reader]
  exact List.length_drop

theorem Reads.remaining_eq_some (h : Reads bytes c r) : c.remaining = some r.remaining := by
  have hwithin : c.position ≤ c.buffer.length := by
    rw [h.buffer]
    exact h.within
  unfold Cursor.remaining
  rw [Number.subtract_eq_some hwithin, h.remaining, h.buffer]

theorem matches_take (h : Reads bytes c r) (hlength : Addressable bytes) (n : Nat) :
    Matches (Takes bytes n) (c.take n) (r.take n) := by
  have hremaining := h.remaining
  unfold Cursor.take
  refine Matches.step h.remaining_eq_some ?_
  obtain ⟨rfl, hwithin, rfl⟩ := h
  by_cases hroom : Reader.remaining ⟨c.position, c.buffer.drop c.position⟩ < n
  · rw [if_pos hroom, Reader.take_eq_error hroom]
    exact Matches.throw _
  · -- The slice ends where the input ends at the latest.
    have hstop : c.position + n ≤ c.buffer.length := by omega
    have hfits : c.position + n < 1 <<< 64 := by
      unfold Addressable at hlength
      omega
    have hcount : ((c.buffer.drop c.position).take n).length = n := by
      rw [List.length_take, List.length_drop]
      omega
    rw [if_neg hroom, Reader.take_eq_ok (Nat.le_of_not_lt hroom)]
    refine Matches.step (Number.add_eq_some hfits) (Matches.step (slice_add_eq_some hstop) ?_)
    exact Matches.pure (.intro _ hcount
      ⟨rfl, hstop, congrArg (Reader.mk (c.position + n)) List.drop_drop⟩)

theorem matches_nextBytes (h : Reads bytes c r) (hlength : Addressable bytes) (n : Nat) :
    Matches (Takes bytes n) (c.nextBytes n) (r.nextBytes n) :=
  (matches_take h hlength n).mapError FormatError.overrun

theorem matches_nextByte (h : Reads bytes c r) (hlength : Addressable bytes) :
    Matches (ReadsOn bytes) c.nextByte r.nextByte := by
  unfold Cursor.nextByte
  rw [r.nextByte_eq_bind]
  refine (matches_nextBytes h hlength 1).bind ?_
  rintro _ _ ⟨taken, hone, hreads⟩
  obtain ⟨byte, rfl⟩ := List.length_eq_one_iff.mp hone
  exact Matches.step rfl (Matches.pure (.intro byte hreads))

theorem matches_nextWord (h : Reads bytes c r) (hlength : Addressable bytes) :
    Matches (ReadsOn bytes) c.nextWord r.nextWord := by
  unfold Cursor.nextWord
  rw [r.nextWord_eq_bind]
  refine (matches_nextBytes h hlength 2).bind ?_
  rintro _ _ ⟨taken, htwo, hreads⟩
  match taken, htwo with
  | [first, second], _ =>
    exact Matches.step rfl (Matches.step rfl (Matches.pure (.intro _ hreads)))

/-- Padding is less than the multiple that it goes up to, so no number here is too large. -/
theorem matches_nextMultiple (h : Reads bytes c r) (hlength : Addressable bytes) {m : Nat}
    (hm : 0 < m) : Matches (ReadsOn bytes) (c.nextMultiple m) (r.nextMultiple m) := by
  have hposition : c.position = r.position := by rw [h.reader]
  have hpast : c.position % m ≤ m := Nat.le_of_lt (Nat.mod_lt _ hm)
  unfold Cursor.nextMultiple
  rw [r.nextMultiple_eq_bind]
  refine Matches.step (Number.remainder_eq_some c.position (Nat.ne_of_gt hm)) ?_
  refine Matches.step (Number.subtract_eq_some hpast) ?_
  refine Matches.step (Number.remainder_eq_some _ (Nat.ne_of_gt hm)) ?_
  rw [hposition]
  refine (matches_nextBytes h hlength _).bind ?_
  rintro _ _ ⟨taken, -, hreads⟩
  exact Matches.pure (.intro _ hreads)

end Cursor

/-! ## Blocks -/

section

open Cursor

variable {bytes : List Byte} {c : Cursor} {r : Reader}

theorem run_readHeader {block : Block} (h : Addressable block.payload) :
    (readHeader block).run = some block.header := by
  unfold readHeader Block.header
  refine Matches.run_eq ((matches_nextWord (reads_ofBytes _) h).bind ?_)
  rintro _ _ ⟨signature, h₁⟩
  refine Matches.check _ fun _ => (matches_nextWord h₁ h).bind ?_
  rintro _ _ ⟨reserved, h₂⟩
  refine (matches_nextWord h₂ h).bind ?_
  rintro _ _ ⟨control, -⟩
  exact Matches.pure rfl

theorem matches_readBlock (h : Reads bytes c r) (hlength : Addressable bytes) :
    Matches (ReadsOn bytes) (readBlock c) (Block.read? r) := by
  have hposition : c.position = r.position := by rw [h.reader]
  unfold readBlock Block.read?
  rw [hposition]
  refine (matches_nextByte h hlength).bind ?_
  rintro _ _ ⟨validity, h₁⟩
  refine Matches.check _ fun _ => (matches_nextWord h₁ hlength).bind ?_
  rintro _ _ ⟨length, h₂⟩
  refine Matches.check _ fun _ => Matches.ite (fun _ => Matches.pure (.intro _ h₂)) fun _ => ?_
  refine (matches_nextWord h₂ hlength).bind ?_
  rintro _ _ ⟨uncompressedLength, h₃⟩
  refine (matches_nextBytes h₃ hlength _).bind ?_
  rintro _ _ ⟨payload, -, h₄⟩
  exact Matches.pure (.intro _ h₄)

/-- Behind a block there are fewer bytes than in front of it. -/
theorem remaining_lt_of_read? {behind : Reader} {block : Block}
    (h : Block.read? r = .ok (some block, behind)) : behind.remaining < r.remaining := by
  rcases Block.read?_eq_ok h with ⟨hnone, -⟩ | ⟨_, -, -, -, hpasses⟩
  · contradiction
  · rw [Reader.remaining, Reader.remaining, hpasses.rest, List.length_append, Block.length_encode]
    omega

/-- The loop over the blocks ends before its turns do, behind the terminator or with an error. -/
theorem matches_skipBlocks (h : Reads bytes c r) (hlength : Addressable bytes)
    {turns attempts : Nat} (hattempts : r.remaining ≤ attempts) (hturns : attempts < turns) :
    Matches (fun behind found => Reads bytes behind found.2) (skipBlocks turns c)
      (Block.readAll attempts r) := by
  induction attempts generalizing c r turns with
  | zero =>
    -- Nothing is left, so that already the first byte of a block is missing.
    obtain ⟨turns, rfl⟩ := Nat.exists_eq_add_one_of_ne_zero (Nat.ne_of_gt hturns)
    obtain ⟨position, rest⟩ := r
    obtain rfl : rest = [] := List.length_eq_zero_iff.mp (Nat.le_zero.mp hattempts)
    exact (matches_readBlock h hlength).bind_of_ok (g := fun _ => .ok ([], ⟨position, []⟩))
      fun _ _ hread => by cases hread
  | succ attempts ih =>
    obtain ⟨turns, rfl⟩ := Nat.exists_eq_add_one_of_ne_zero (Nat.ne_zero_of_lt hturns)
    unfold skipBlocks Block.readAll
    refine (matches_readBlock h hlength).bind_of_ok ?_
    rintro _ ⟨found, behind⟩ hread ⟨_, h₁⟩
    cases found with
    | none => exact Matches.pure h₁
    | some block =>
      have hfewer := remaining_lt_of_read? hread
      have hturns : attempts < turns := Nat.lt_of_succ_lt_succ hturns
      exact (ih h₁ (by omega) hturns).keep fun _ _ hreads => hreads

/-! ## The image -/

theorem matches_readImage (h : Reads bytes c r) (hlength : Addressable bytes) :
    Matches Eq (readImage bytes c)
      (r.nextMultiple paragraph >>= fun (_, behind) => Image.read behind) := by
  unfold readImage
  refine (matches_nextMultiple h hlength (by decide)).bind ?_
  rintro _ _ @⟨padding, c₁, r₁, h₁⟩
  have hposition : c₁.position = r₁.position := by rw [h₁.reader]
  unfold Image.read
  refine Matches.step h₁.remaining_eq_some ?_
  rw [hposition]
  refine (matches_nextWord h₁ hlength).bind ?_
  rintro _ _ ⟨signature, h₂⟩
  refine Matches.check _ fun _ => (matches_nextWord h₂ hlength).bind ?_
  rintro _ _ ⟨entry, h₃⟩
  refine (matches_nextWord h₃ hlength).bind ?_
  rintro _ _ ⟨paragraphs, -⟩
  have hfits : paragraphs.toNat * paragraph < 1 <<< 64 := by
    have hlt := paragraphs.isLt
    unfold paragraph
    omega
  refine Matches.step (Number.multiply_eq_some hfits) (Matches.check _ fun hroom => ?_)
  -- The image ends where the input ends at the latest.
  have hstop : r₁.position + paragraphs.toNat * paragraph ≤ bytes.length := by
    have hremaining := h₁.remaining
    have hwithin := h₁.within
    omega
  have hsum : r₁.position + paragraphs.toNat * paragraph < 1 <<< 64 := by
    unfold Addressable at hlength
    omega
  refine Matches.step (Number.add_eq_some hsum) (Matches.step (slice_add_eq_some hstop) ?_)
  have hrest : r₁.rest = bytes.drop r₁.position := by
    rw [h₁.reader]
  rw [hrest]
  exact Matches.pure rfl

end

/-! ## Streams -/

/-- The image is the one that has been found, and from the start on all the blocks can be read. -/
structure Parsed.Finds (bytes : List Byte) (parsed : Parsed) (container : Container) : Prop where
  image : parsed.image = container.image
  blocks : ∃ r behind, parsed.start.Reads bytes r
    ∧ Block.readAll r.remaining r = .ok (container.blocks, behind)

/-- Parsing with the padding and the image taken together. -/
theorem parse_eq_bind (bytes : List Byte) : Container.parse bytes = (do
    let (signature, r) ← (Reader.ofBytes bytes).nextWord
    if signature ≠ streamSignature then throw (.badSignature signature)
    let (blocks, r) ← Block.readAll r.remaining r
    let image ← (r.nextMultiple paragraph >>= fun (_, behind) => Image.read behind)
    return ⟨blocks, image⟩) := by
  unfold Container.parse Container.readFront
  rcases (Reader.ofBytes bytes).nextWord with error | ⟨signature, r⟩
  · rfl
  · by_cases hsignature : signature ≠ streamSignature
    · simp only [bind, Except.bind, if_pos hsignature, throw, throwThe, MonadExceptOf.throw]
    · simp only [bind, Except.bind, if_neg hsignature]
      rcases Block.readAll r.remaining r with error | ⟨blocks, r₁⟩
      · rfl
      · dsimp only
        rcases r₁.nextMultiple paragraph with error | ⟨padding, r₂⟩
        · rfl
        · rfl

theorem matches_parse {bytes : List Byte} (hlength : Addressable bytes) :
    Matches (Parsed.Finds bytes) (parse bytes) (Container.parse bytes) := by
  rw [parse_eq_bind]
  unfold parse
  refine (Cursor.matches_nextWord (Cursor.reads_ofBytes bytes) hlength).bind ?_
  rintro _ _ @⟨signature, start, r, h₁⟩
  have hturns : r.remaining < bytes.length + 1 := by
    have hremaining := h₁.remaining
    omega
  refine Matches.check _ fun _ => ?_
  refine (matches_skipBlocks h₁ hlength (Nat.le_refl _) hturns).bind_of_ok ?_
  rintro behind ⟨blocks, r₁⟩ hblocks h₂
  refine (matches_readImage h₂ hlength).bind ?_
  rintro image _ rfl
  exact Matches.pure ⟨rfl, r, r₁, h₁, hblocks⟩

end Checked

end CmStream
