import CmStream.Proofs.Machine.Instructions
import CmStream.Proofs.Memory.Words

/-!
# One push and one pop

A push moves the stack pointer down by a word and stores the word there; a pop takes the word from
there and moves back. Neither does anything else, wherever in its segment the stack pointer is: the
two bytes of the word may be the last of the segment and its first.
-/

namespace CmStream

namespace Registers

@[simp] theorem lowered_zero (r : Registers) : r.lowered 0 = r := by
  simp [lowered]

@[simp] theorem sp_lowered (r : Registers) (words : Nat) :
    (r.lowered words).sp = r.sp - BitVec.ofNat 16 (2 * words) := rfl

@[simp] theorem ss_lowered (r : Registers) (words : Nat) : (r.lowered words).ss = r.ss := rfl

theorem lowered_add (r : Registers) (words more : Nat) :
    (r.lowered words).lowered more = r.lowered (words + more) := by
  simp only [lowered, Registers.mk.injEq, true_and, and_true]
  bv_omega

/-- One word fewer is on the stack when the stack pointer has moved up by a word. -/
theorem raised_lowered (r : Registers) (words : Nat) :
    { r.lowered (words + 1) with sp := (r.lowered (words + 1)).sp + 2 } = r.lowered words := by
  simp only [lowered, Registers.mk.injEq, true_and, and_true]
  bv_omega

theorem setWord_lowered (r : Registers) (words : Nat) {name : WordRegister} (h : name ≠ .sp) :
    (r.lowered words).setWord name (r.word name) = r.lowered words := by
  cases name <;> first | rfl | exact absurd rfl h

theorem wordPlace_zero (r : Registers) : r.wordPlace 0 = r.stackPointer :=
  FarPointer.advance_zero _

/-- A word that is pushed has the others below it. -/
theorem wordPlace_lowered_succ (r : Registers) (i : Nat) :
    (r.lowered 1).wordPlace (i + 1) = r.wordPlace i := by
  simp only [wordPlace, stackPointer, FarPointer.advance, sp_lowered, ss_lowered,
    FarPointer.mk.injEq, true_and]
  bv_omega

/-! ## The bytes of words on the stack -/

theorem CoversBelow.mono {r : Registers} {words more address : Nat} (hle : words ≤ more)
    (h : r.CoversBelow words address) : r.CoversBelow more address := by
  obtain ⟨place, ⟨i, hi, rfl⟩, rfl⟩ := h
  exact ⟨_, ⟨i, by omega, rfl⟩, rfl⟩

theorem CoversBelow.exists_offset {r : Registers} {words address : Nat}
    (h : r.CoversBelow words address) : ∃ i, i < 2 * words
      ∧ address = (FarPointer.mk r.ss (r.sp - BitVec.ofNat 16 (i + 1))).linear := by
  obtain ⟨place, ⟨i, hi, rfl⟩, rfl⟩ := h
  exact ⟨i, hi, rfl⟩

/-- What is on the stack lies in the segment of the stack. -/
theorem CoversBelow.le {r : Registers} {words address : Nat} (h : r.CoversBelow words address) :
    r.ss.toNat * 16 ≤ address := by
  obtain ⟨i, -, rfl⟩ := h.exists_offset
  exact Nat.le_add_right _ _

theorem CoversBelow.of_stackPointer_eq {r r' : Registers} {words address : Nat}
    (hstack : r'.stackPointer = r.stackPointer) (h : r.CoversBelow words address) :
    r'.CoversBelow words address := by
  obtain ⟨place, ⟨i, hi, rfl⟩, rfl⟩ := h
  obtain ⟨hss, hsp⟩ := FarPointer.mk.inj hstack
  exact ⟨_, ⟨i, hi, rfl⟩, by rw [hss, hsp]⟩

/-- The bytes that are pushed on top of some words lie below the place where the stack began. -/
theorem coversBelow_of_covers {r : Registers} {words address : Nat}
    (h : (r.lowered (words + 1)).stackPointer.Covers .word address) :
    r.CoversBelow (words + 1) address := by
  rcases FarPointer.covers_word_iff.mp h with rfl | rfl
  · refine ⟨_, ⟨2 * words + 1, by omega, rfl⟩, ?_⟩
    simp only [stackPointer, ss_lowered, sp_lowered, FarPointer.linear]
    congr 2
  · refine ⟨_, ⟨2 * words, by omega, rfl⟩, ?_⟩
    simp only [stackPointer, ss_lowered, sp_lowered, FarPointer.linear, FarPointer.advance]
    congr 2
    bv_omega

/-- The words on top of some others have their bytes below the place where these began. -/
theorem coversBelow_of_wordPlace {r : Registers} {words i address : Nat} (hi : i < words)
    (h : ((r.lowered words).wordPlace i).Covers .word address) : r.CoversBelow words address := by
  obtain ⟨words, rfl⟩ := Nat.exists_eq_add_of_lt hi
  have hplace : (r.lowered (i + words + 1)).wordPlace i = (r.lowered (words + 1)).stackPointer := by
    simp only [wordPlace, stackPointer, FarPointer.advance, sp_lowered, ss_lowered,
      FarPointer.mk.injEq, true_and]
    bv_omega
  rw [hplace] at h
  exact (coversBelow_of_covers h).mono (by omega)

/-- As long as there is room in the segment, a word that is pushed does not reach those that are on
the stack already. -/
theorem not_covers_of_wordPlace {r : Registers} {i address : Nat}
    (hi : i + 1 < StackOperation.capacity) (h : (r.wordPlace i).Covers .word address) :
    ¬ (r.lowered 1).stackPointer.Covers .word address := by
  obtain ⟨j, hj, rfl⟩ := h
  rintro ⟨k, hk, heq⟩
  have hoffset := FarPointer.linear_injective heq
  have hj : j < 2 := hj
  have hk : k < 2 := hk
  simp only [StackOperation.capacity] at hi
  simp only [wordPlace, FarPointer.advance, stackPointer, sp_lowered] at hoffset
  bv_omega

end Registers

namespace PagedMemory

/-- What a segment that can be read and written grants to a word in it, wherever it lies. -/
theorem SegmentOpen.permits {m : PagedMemory} {segment offset : Word} {address : Nat}
    (h : m.SegmentOpen segment) (haddress : (FarPointer.mk segment offset).Covers .word address) :
    m.Permits .read address ∧ m.Permits .write address := by
  obtain ⟨j, -, rfl⟩ := haddress
  exact h _

end PagedMemory

namespace Microprogram

variable {m after : Machine} {value : Word}

/-- What a push leaves behind. -/
structure Pushed (value : Word) (m after : Machine) : Prop where
  registers : after.registers = m.registers.lowered 1
  stores : PagedMemory.StoresWord after.registers.stackPointer value m.memory after.memory

/-- The new word is the uppermost. -/
theorem Pushed.word (h : Pushed value m after) :
    after.memory.word? (after.registers.wordPlace 0) = some value := by
  rw [Registers.wordPlace_zero]
  exact h.stores.word

theorem pushed_of_run (htiled : m.memory.Tiled) (h : (push value).run m = (.ok (), after)) :
    Pushed value m after := by
  let between : Machine := { m with registers := m.registers.lowered 1 }
  have hstore : (storeWord between.registers.stackPointer value).run between = (.ok (), after) := h
  obtain ⟨hregisters, hstores⟩ := storeWord_eq_ok (m := between) htiled hstore
  rw [← hregisters] at hstores
  exact ⟨hregisters, hstores⟩

theorem exists_run_push (value : Word) (hopen : m.memory.SegmentOpen m.registers.ss) :
    ∃ after, (push value).run m = (.ok (), after) := by
  let between : Machine := { m with registers := m.registers.lowered 1 }
  have hwritable (address : Nat)
      (haddress : (FarPointer.mk m.registers.ss (m.registers.sp - 2)).Covers .word address) :
      between.memory.Permits .write address := (hopen.permits haddress).2
  exact exists_run_storeWord value hwritable

/-- A pop hands on the uppermost word. -/
theorem pop_eq_ok (h : pop.run m = (.ok value, after)) :
    m.memory.word? (m.registers.wordPlace 0) = some value
      ∧ after = { m with registers := { m.registers with sp := m.registers.sp + 2 } } := by
  obtain ⟨r, between, hr, hrest⟩ := run_bind_eq_ok h
  cases hr
  obtain ⟨found, between, hload, hlast⟩ := run_bind_eq_ok hrest
  obtain ⟨hword, rfl⟩ := loadWord_eq_ok hload
  cases hlast
  rw [Registers.wordPlace_zero]
  exact ⟨hword, rfl⟩

/-- What is on the stack can be popped. -/
theorem run_pop_of_word? (hopen : m.memory.SegmentOpen m.registers.ss)
    (hword : m.memory.word? (m.registers.wordPlace 0) = some value) :
    pop.run m
      = (.ok value, { m with registers := { m.registers with sp := m.registers.sp + 2 } }) := by
  rw [Registers.wordPlace_zero] at hword
  have hreadable (address : Nat) (haddress : m.registers.stackPointer.Covers .word address) :
      m.memory.Permits .read address := (hopen.permits haddress).1
  exact Machine.run_pop (run_loadWord_of_word? hword hreadable)

end Microprogram

end CmStream
