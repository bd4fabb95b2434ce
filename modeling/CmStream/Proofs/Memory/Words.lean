import CmStream.Machine.Stack
import CmStream.Proofs.Machine.Running
import CmStream.Proofs.Memory.Addresses

/-!
# Words in memory

A word that has been stored is found again, whatever the mapping: its two bytes lie differently
within their pages, so no region byte is behind both. Another word stays what it was if none of its
bytes is stored to; that is said by addresses where no byte lies behind two of them, and otherwise
by where the bytes lie within their pages.
-/

namespace CmStream

theorem FarPointer.covers_word_iff {place : FarPointer} {address : Nat} :
    place.Covers .word address ↔ address = place.linear ∨ address = (place.advance 1).linear := by
  have hzero : place.advance (BitVec.ofNat 16 0) = place := place.advance_zero
  constructor
  · rintro ⟨j, hj, rfl⟩
    have hcases : j = 0 ∨ j = 1 := Nat.le_one_iff_eq_zero_or_eq_one.mp (Nat.le_of_lt_succ hj)
    rcases hcases with rfl | rfl
    · rw [hzero]
      exact .inl rfl
    · exact .inr rfl
  · rintro (rfl | rfl)
    · exact ⟨0, Nat.two_pos, by rw [hzero]⟩
    · exact ⟨1, Nat.one_lt_two, rfl⟩

namespace PagedMemory

variable {m m' : PagedMemory} {place : FarPointer} {value : Word} {address other : Nat}
  {addresses : Nat → Prop}

theorem word?_eq_some_iff : m.word? place = some value
    ↔ m.byte? place.linear = some (Word.low value)
      ∧ m.byte? (place.advance 1).linear = some (Word.high value) := by
  unfold word?
  cases m.byte? place.linear with
  | none => simp
  | some first =>
    cases m.byte? (place.advance 1).linear with
    | none => simp
    | some second =>
      simp only [Option.bind_eq_bind, Option.bind_some, Option.pure_def, Option.some.injEq]
      constructor
      · rintro rfl
        exact ⟨(Word.low_ofBytes _ _).symm, (Word.high_ofBytes _ _).symm⟩
      · rintro ⟨rfl, rfl⟩
        exact Word.ofBytes_low_high value

/-- The word is the same if its bytes are. -/
theorem word?_congr
    (h : ∀ address, place.Covers .word address → m'.byte? address = m.byte? address) :
    m'.word? place = m.word? place := by
  unfold word?
  rw [h _ (FarPointer.covers_word_iff.mpr (.inl rfl)),
    h _ (FarPointer.covers_word_iff.mpr (.inr rfl))]

theorem SegmentOpen.of_sameShape {segment : Word} (h : m.SegmentOpen segment)
    (hshape : m.SameShape m') : m'.SegmentOpen segment := by
  intro offset
  rw [← hshape.permits_iff, ← hshape.permits_iff]
  exact h offset

theorem SegmentOpen.exists_word? {segment : Word} (h : m.SegmentOpen segment) (offset : Word) :
    ∃ value, m.word? ⟨segment, offset⟩ = some value := by
  obtain ⟨first, -, hfirst⟩ := (h offset).1.exists_read
  obtain ⟨second, -, hsecond⟩ := (h (offset + 1)).1.exists_read
  refine ⟨Word.ofBytes first second, word?_eq_some_iff.mpr ?_⟩
  rw [Word.low_ofBytes, Word.high_ofBytes]
  exact ⟨hfirst, hsecond⟩

/-! ## What stores elsewhere leave -/

/-- A slot lies as far behind a whole page as every address that it is behind. -/
theorem Tiled.offset_mod_of_backing? {slot : Slot} (h : m.Tiled)
    (hslot : m.backing? address = some slot) : slot.offset % pageSize = address % pageSize := by
  obtain ⟨page, hpage, rfl⟩ := Option.map_eq_some_iff.mp hslot
  obtain ⟨haligned, -⟩ := h _ page hpage
  simp only [pageSize] at haligned ⊢
  omega

namespace SameOutside

/-- Where bytes may lie behind several addresses, those that lie differently within their pages are
still not the same. -/
theorem byte?_eq_of_mod_ne (h : m.SameOutside (m.Behind addresses) m') (htiled : m.Tiled)
    (hother : ∀ address, addresses address → address % pageSize ≠ other % pageSize) :
    m'.byte? other = m.byte? other := by
  unfold byte?
  rw [← h.shape.backing?_eq]
  cases hslot : m.backing? other with
  | none => rfl
  | some slot =>
    have hseen : ¬ m.Behind addresses slot := fun ⟨address, haddress, hbacking⟩ =>
      hother address haddress
        ((htiled.offset_mod_of_backing? hbacking).symm.trans (htiled.offset_mod_of_backing? hslot))
    rw [Option.map_some, Option.map_some, h.bytes slot hseen]

/-- Where nothing has been stored to, every access finds what it has found before. -/
theorem read_eq (h : m.SameOutside (m.Behind addresses) m') (hunaliased : m.Unaliased)
    (access : Access) (hother : ¬ addresses other) :
    m'.read access other = m.read access other := by
  unfold read
  rw [← h.shape.locate_eq]
  cases hlocate : m.locate access other with
  | error fault => rfl
  | ok slot =>
    have hseen : ¬ m.Behind addresses slot := fun ⟨address, haddress, hbacking⟩ =>
      hother (hunaliased _ _ _ hbacking (backing?_of_locate hlocate) ▸ haddress)
    exact congrArg Except.ok (h.bytes slot hseen).symm

theorem word?_eq (h : m.SameOutside (m.Behind addresses) m') (hunaliased : m.Unaliased)
    (hother : ∀ address, place.Covers .word address → ¬ addresses address) :
    m'.word? place = m.word? place :=
  word?_congr fun address haddress => h.byte?_eq hunaliased (hother address haddress)

theorem word?_eq_of_mod_ne (h : m.SameOutside (m.Behind addresses) m') (htiled : m.Tiled)
    (hother : ∀ address, addresses address → ∀ own, place.Covers .word own →
      address % pageSize ≠ own % pageSize) : m'.word? place = m.word? place :=
  word?_congr fun own hown =>
    h.byte?_eq_of_mod_ne htiled fun address haddress => hother address haddress own hown

end SameOutside

/-- What a store of a word leaves behind: the word at its place, and every byte elsewhere as it
was. -/
structure StoresWord (place : FarPointer) (value : Word) (before after : PagedMemory) : Prop where
  word : after.word? place = some value
  outside : before.SameOutside (before.Behind (place.Covers .word)) after

/-- The two stores of a word. -/
theorem Tiled.storesWord {first second : Slot} (h : m.Tiled)
    (hfirst : m.locate .write place.linear = .ok first)
    (hsecond : m.locate .write (place.advance 1).linear = .ok second) :
    StoresWord place value m
      ((m.setByteAt first (Word.low value)).setByteAt second (Word.high value)) := by
  have hshape := sameShape_setByteAt m first (Word.low value)
  have hsecond' := hsecond
  rw [hshape.locate_eq] at hsecond'
  have hlower := SameOutside.setByteAt_self (backing?_of_locate hfirst) (Word.low value)
  have hupper := SameOutside.setByteAt_self (backing?_of_locate hsecond') (Word.high value)
  refine ⟨word?_eq_some_iff.mpr ⟨?_, ?_⟩, hlower.append hupper fun address haddress => ?_⟩
  · -- The upper byte does not come to lie on the lower one.
    rw [hupper.byte?_eq_of_mod_ne (h.of_sameShape hshape)
      (by rintro _ rfl; exact (linear_advance_one_ne place).symm)]
    rw [byte?, ← hshape.backing?_eq, backing?_of_locate hfirst, Option.map_some,
      h.byteAt_setByteAt_self hfirst]
  · rw [byte?, ← (sameShape_setByteAt _ second _).backing?_eq, backing?_of_locate hsecond',
      Option.map_some, (h.of_sameShape hshape).byteAt_setByteAt_self hsecond']
  · exact FarPointer.covers_word_iff.mpr haddress

/-- The two bytes of a word are different bytes, whichever pages show them. -/
theorem Tiled.backing?_advance_ne {slot slot' : Slot} (h : m.Tiled)
    (hlower : m.backing? place.linear = some slot)
    (hupper : m.backing? (place.advance 1).linear = some slot') : slot ≠ slot' := by
  rintro rfl
  have hmod := (h.offset_mod_of_backing? hlower).symm.trans (h.offset_mod_of_backing? hupper)
  exact linear_advance_one_ne place hmod

/-- What a store of a word leaves behind that is refused: at most the lower byte has changed, and it
has become that of the word exactly if the fault is at the upper byte. -/
structure StoresPartly (place : FarPointer) (value : Word) (fault : Fault)
    (before after : PagedMemory) : Prop where
  access : fault.access = .write
  address : place.Covers .word fault.address
  refused : ¬ before.Permits .write fault.address
  outside : before.SameOutside (before.Behind (· = place.linear)) after
  lower : fault.address = (place.advance 1).linear
    ↔ before.write place.linear (Word.low value) = .ok after
  found : fault.address = (place.advance 1).linear →
    after.byte? place.linear = some (Word.low value)
  kept : fault.address ≠ (place.advance 1).linear → after = before

/-- The lower byte is refused, and nothing has happened. -/
theorem storesPartly_of_lower
    (hrefused : m.locate .write place.linear = .error ⟨place.linear, .write⟩) :
    StoresPartly place value ⟨place.linear, .write⟩ m m where
  access := rfl
  address := FarPointer.covers_word_iff.mpr (.inl rfl)
  refused := fun ⟨slot, hlocate⟩ => by cases hrefused.symm.trans hlocate
  outside := .refl _ m
  lower := by
    refine iff_of_false place.linear_advance_ne fun hwrite => ?_
    obtain ⟨slot, hlocate, -⟩ := write_eq_ok hwrite
    cases hrefused.symm.trans hlocate
  found hupper := absurd hupper place.linear_advance_ne
  kept _ := rfl

/-- The lower byte has been stored, and the upper one is refused. -/
theorem Tiled.storesPartly_of_upper {slot : Slot} (h : m.Tiled)
    (hlocate : m.locate .write place.linear = .ok slot)
    (hrefused : m.locate .write (place.advance 1).linear
      = .error ⟨(place.advance 1).linear, .write⟩) :
    StoresPartly place value ⟨(place.advance 1).linear, .write⟩ m
      (m.setByteAt slot (Word.low value)) where
  access := rfl
  address := FarPointer.covers_word_iff.mpr (.inr rfl)
  refused := fun ⟨slot, hlocate⟩ => by cases hrefused.symm.trans hlocate
  outside := .setByteAt_self (backing?_of_locate hlocate) _
  lower := by
    refine iff_of_true rfl ?_
    unfold write
    rw [hlocate]
    rfl
  found _ := by
    rw [byte?, ← (sameShape_setByteAt m slot _).backing?_eq, backing?_of_locate hlocate,
      Option.map_some, h.byteAt_setByteAt_self hlocate]
  kept hlower := absurd rfl hlower

end PagedMemory

/-! ## Loads and stores of words -/

namespace Microprogram

open PagedMemory

variable {m after : Machine} {place : FarPointer} {value : Word}

theorem loadByte_eq_ok {byte : Byte}
    (h : (loadByte .read place).run m = (.ok byte, after)) :
    m.memory.byte? place.linear = some byte ∧ after = m := by
  unfold loadByte run at h
  cases hlocate : m.memory.locate .read place.linear with
  | error fault =>
    simp only [PagedMemory.read, hlocate, Except.map] at h
    cases h
  | ok slot =>
    simp only [PagedMemory.read, hlocate, Except.map] at h
    cases h
    exact ⟨byte?_of_locate hlocate, rfl⟩

/-- A load hands on what is there. -/
theorem loadWord_eq_ok (h : (loadWord place).run m = (.ok value, after)) :
    m.memory.word? place = some value ∧ after = m := by
  obtain ⟨first, between, hfirst, hrest⟩ := run_bind_eq_ok h
  obtain ⟨hlower, rfl⟩ := loadByte_eq_ok hfirst
  obtain ⟨second, last, hsecond, hvalue⟩ := run_bind_eq_ok hrest
  obtain ⟨hupper, rfl⟩ := loadByte_eq_ok hsecond
  cases hvalue
  constructor
  · rw [word?_eq_some_iff, Word.low_ofBytes, Word.high_ofBytes]
    exact ⟨hlower, hupper⟩
  · rfl

/-- A word that is there is loaded, if it can be read. -/
theorem run_loadWord_of_word? (hword : m.memory.word? place = some value)
    (hreadable : ∀ address, place.Covers .word address → m.memory.Permits .read address) :
    (loadWord place).run m = (.ok value, m) := by
  obtain ⟨hlower, hupper⟩ := word?_eq_some_iff.mp hword
  obtain ⟨first, hfirst, hfound⟩ :=
    (hreadable _ (FarPointer.covers_word_iff.mpr (.inl rfl))).exists_read
  obtain ⟨second, hsecond, hfound'⟩ :=
    (hreadable _ (FarPointer.covers_word_iff.mpr (.inr rfl))).exists_read
  obtain rfl := Option.some.inj (hlower.symm.trans hfound)
  obtain rfl := Option.some.inj (hupper.symm.trans hfound')
  rw [run_loadWord hfirst hsecond, Word.ofBytes_low_high]

theorem storeByte_eq_ok_iff {byte : Byte} : (storeByte place byte).run m = (.ok (), after)
    ↔ ∃ slot, m.memory.locate .write place.linear = .ok slot
      ∧ after = { m with memory := m.memory.setByteAt slot byte } := by
  unfold storeByte run
  cases m.memory.locate .write place.linear with
  | error fault => simp
  | ok slot => simp [run, eq_comm]

/-- A store that succeeds. -/
theorem storeWord_eq_ok (htiled : m.memory.Tiled)
    (h : (storeWord place value).run m = (.ok (), after)) :
    after.registers = m.registers ∧ StoresWord place value m.memory after.memory := by
  obtain ⟨⟨⟩, between, hfirst, hsecond⟩ := run_bind_eq_ok h
  obtain ⟨first, hlower, rfl⟩ := storeByte_eq_ok_iff.mp hfirst
  obtain ⟨second, hupper, rfl⟩ := storeByte_eq_ok_iff.mp hsecond
  rw [← (sameShape_setByteAt m.memory first _).locate_eq] at hupper
  exact ⟨rfl, htiled.storesWord hlower hupper⟩

/-- A word is stored, if its bytes can be written. -/
theorem exists_run_storeWord (value : Word)
    (hwritable : ∀ address, place.Covers .word address → m.memory.Permits .write address) :
    ∃ after, (storeWord place value).run m = (.ok (), after) := by
  obtain ⟨first, hfirst⟩ := hwritable _ (FarPointer.covers_word_iff.mpr (.inl rfl))
  obtain ⟨second, hsecond⟩ := hwritable _ (FarPointer.covers_word_iff.mpr (.inr rfl))
  exact ⟨_, run_storeWord value hfirst hsecond⟩

theorem permits_of_storeWord (h : (storeWord place value).run m = (.ok (), after)) {address : Nat}
    (haddress : place.Covers .word address) : m.memory.Permits .write address := by
  obtain ⟨⟨⟩, between, hfirst, hsecond⟩ := run_bind_eq_ok h
  obtain ⟨first, hlower, rfl⟩ := storeByte_eq_ok_iff.mp hfirst
  obtain ⟨second, hupper, -⟩ := storeByte_eq_ok_iff.mp hsecond
  rw [← (sameShape_setByteAt m.memory first _).locate_eq] at hupper
  rcases FarPointer.covers_word_iff.mp haddress with rfl | rfl
  · exact ⟨first, hlower⟩
  · exact ⟨second, hupper⟩

theorem run_storeByte_of_error {byte : Byte} {fault : Fault}
    (h : m.memory.locate .write place.linear = .error fault) :
    (storeByte place byte).run m = (.error (.fault fault), m) := by
  unfold storeByte
  rw [run, h]

/-- A store that is refused. -/
theorem storeWord_eq_error {cause : Cause} (htiled : m.memory.Tiled)
    (h : (storeWord place value).run m = (.error cause, after)) :
    ∃ fault, cause = .fault fault ∧ after.registers = m.registers
      ∧ StoresPartly place value fault m.memory after.memory := by
  unfold storeWord at h
  cases hlower : m.memory.locate .write place.linear with
  | error fault =>
    -- Nothing has been stored.
    obtain rfl := (locate_eq_error hlower).1
    rw [run_bind, run_storeByte_of_error hlower] at h
    cases h
    exact ⟨_, rfl, rfl, storesPartly_of_lower hlower⟩
  | ok first =>
    rw [run_bind_of_ok _ (run_storeByte _ hlower)] at h
    -- The upper byte is looked for in a memory that holds the lower one already.
    cases hupper : (m.memory.setByteAt first (Word.low value)).locate .write
        (place.advance 1).linear with
    | error fault =>
      obtain rfl := (locate_eq_error hupper).1
      cases h.symm.trans (run_storeByte_of_error hupper)
      exact ⟨_, rfl, rfl, htiled.storesPartly_of_upper hlower hupper⟩
    | ok second => cases h.symm.trans (run_storeByte _ hupper)

end Microprogram

namespace Machine

open Microprogram PagedMemory

variable {m : Machine} {operations : List Operation}

/-- Whatever mappings a memory has come about by, the bytes of a word are different bytes of
regions. A store of a word succeeds exactly if both may be written; it changes nothing else, and the
word is loaded again if both may be read. A store that is refused has changed the lower byte at
most, which has become that of the word exactly if the fault is at the upper byte. -/
theorem words_survive (hmemory : m.memory = PagedMemory.after operations) (place : FarPointer)
    (value : Word) :
    (place.offset = 0xffff → place.advance 1 = ⟨place.segment, 0⟩)
      ∧ (∀ slot slot', m.memory.backing? place.linear = some slot →
        m.memory.backing? (place.advance 1).linear = some slot' → slot ≠ slot')
      ∧ ((∃ stored, (storeWord place value).run m = (.ok (), stored))
        ↔ ∀ address, place.Covers .word address → m.memory.Permits .write address)
      ∧ (∀ stored, (storeWord place value).run m = (.ok (), stored) →
        stored.registers = m.registers ∧ StoresWord place value m.memory stored.memory
          ∧ ((∀ address, place.Covers .word address → m.memory.Permits .read address) →
            (loadWord place).run stored = (.ok value, stored)))
      ∧ ∀ cause last, (storeWord place value).run m = (.error cause, last) →
        ∃ fault, cause = .fault fault ∧ last.registers = m.registers
          ∧ StoresPartly place value fault m.memory last.memory := by
  have htiled : m.memory.Tiled := hmemory ▸ (Built.empty.foldl operations).tiled
  refine ⟨fun hlast => ?_, fun slot slot' => htiled.backing?_advance_ne, ⟨?_, ?_⟩,
    fun stored hstore => ?_, fun cause last => storeWord_eq_error htiled⟩
  · unfold FarPointer.advance
    rw [hlast]
    rfl
  · rintro ⟨stored, hstore⟩
    exact fun address => permits_of_storeWord hstore
  · exact exists_run_storeWord value
  · obtain ⟨hregisters, hstores⟩ := storeWord_eq_ok htiled hstore
    refine ⟨hregisters, hstores, fun hreadable => run_loadWord_of_word? hstores.word ?_⟩
    intro address haddress
    exact hstores.outside.shape.permits_iff.mp (hreadable address haddress)

/-- One page is shown in two ranges of addresses, in the lower one with the given permissions. -/
def doubling (lower : Permissions) : List Operation :=
  [.allocate pageSize, .map 0x1000 0 lower, .map 0x10000 0 Permissions.all]

def doubled (lower : Permissions) : Machine :=
  ⟨Registers.initial, PagedMemory.after (doubling lower)⟩

theorem memory_doubled (lower : Permissions) :
    (doubled lower).memory = PagedMemory.after (doubling lower) := by
  simp only [doubled]

/-- The last byte of a segment and of the page, in the upper range. The byte behind it is the first
of both, in the lower range. -/
def lastPlace : FarPointer := ⟨0x100, 0xffff⟩

theorem covers_lastPlace {address : Nat} (h : lastPlace.Covers .word address) :
    address = 0x10fff ∨ address = 0x1000 :=
  FarPointer.covers_word_iff.mp h

/-- Where the upper byte may not be written, the lower one has been stored when the store is
refused. -/
theorem words_survive_doubled :
    (∃ stored, (storeWord lastPlace 0x1234).run (doubled Permissions.all) = (.ok (), stored)
        ∧ (loadWord lastPlace).run stored = (.ok 0x1234, stored))
      ∧ ∃ last, (storeWord lastPlace 0x1234).run (doubled ⟨true, false, true, true⟩)
          = (.error (.fault ⟨0x1000, .write⟩), last)
        ∧ last.memory.byte? 0x10fff = some 0x34 := by
  constructor
  · obtain ⟨-, -, hsucceeds, hstored, -⟩ :=
      words_survive (memory_doubled Permissions.all) lastPlace 0x1234
    have hpermits (access : Access) (address : Nat) (haddress : lastPlace.Covers .word address) :
        (doubled Permissions.all).memory.Permits access address := by
      rcases covers_lastPlace haddress with rfl | rfl
      · cases access <;> decide +kernel
      · cases access <;> decide +kernel
    obtain ⟨stored, hstore⟩ := hsucceeds.mpr (hpermits .write)
    exact ⟨stored, hstore, (hstored stored hstore).2.2 (hpermits .read)⟩
  · obtain ⟨-, -, hsucceeds, -, hrefused⟩ :=
      words_survive (memory_doubled ⟨true, false, true, true⟩) lastPlace 0x1234
    rcases hrun : (storeWord lastPlace 0x1234).run (doubled ⟨true, false, true, true⟩)
      with ⟨cause | ⟨⟨⟩⟩, last⟩
    · obtain ⟨⟨address, access⟩, rfl, -, hpartly⟩ := hrefused _ _ hrun
      obtain rfl : access = .write := hpartly.access
      rcases covers_lastPlace hpartly.address with rfl | rfl
      · exact absurd (by decide +kernel) hpartly.refused
      · exact ⟨last, rfl, hpartly.found rfl⟩
    · have hupper := hsucceeds.mp ⟨last, hrun⟩ 0x1000 (FarPointer.covers_word_iff.mpr (.inr rfl))
      exact absurd hupper (by decide +kernel)

end Machine

end CmStream
