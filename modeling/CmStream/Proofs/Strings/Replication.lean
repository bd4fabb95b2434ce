import CmStream.Proofs.Machine.Instructions
import CmStream.Proofs.Sandbox.Layout
import CmStream.Proofs.Strings.Repeating

/-!
# Repeated copies of bytes

A repeated copy goes byte by byte. If its target lies ahead of its source by less than it copies, it
comes upon bytes that it has itself put there, and what lies between the two is replicated.
Otherwise every byte is read before it is overwritten. Both are one statement about the byte that
each byte of the target comes from, `StringOperation.copiedFrom`, and one invariant.
-/

namespace CmStream

open Encoding Machine Microprogram StringOperation

/-- The sandbox shows each of its regions once. -/
theorem Sandbox.LaidOut.unaliased {m : PagedMemory} (h : LaidOut m) : m.Unaliased := by
  intro address address' slot hslot hslot'
  unfold PagedMemory.backing? at hslot hslot'
  rw [h.page, layoutPage] at hslot hslot'
  split at hslot
  case isTrue =>
    split at hslot'
    case isTrue =>
      obtain rfl := Option.some.inj hslot
      have hsame := Option.some.inj hslot'
      simp only [Slot.mk.injEq, segmentPages, pageSize] at hsame
      omega
    case isFalse => cases hslot'
  case isFalse => cases hslot

/-- A copy of `n` bytes from address `s` to address `t`, upward or downward. It stays within both
segments, and every access is granted. -/
structure Machine.Copies (m : Machine) (segment : Word) (down : Bool) (n s t : Nat) : Prop where
  built : m.memory.Built
  unaliased : m.memory.Unaliased
  count : m.registers.cx.toNat = n
  direction : m.registers.flag .direction = down
  source : FarPointer.linear ⟨segment, m.registers.si⟩ = s
  target : FarPointer.linear ⟨m.registers.es, m.registers.di⟩ = t
  sourceRoom : HasRoom down m.registers.si n
  targetRoom : HasRoom down m.registers.di n
  readable : ∀ i, i < n → m.memory.Permits .read (along down s i)
  writable : ∀ i, i < n → m.memory.Permits .write (along down t i)

namespace StringOperation

/-! ## Addresses -/

/-- Bytes that stay within the segment lie one address after the other. -/
theorem linear_eq_along {down : Bool} {r : Registers} {segment offset : Word} {count i : Nat}
    (hdown : r.flag .direction = down) (hroom : HasRoom down offset count) (hi : i < count) :
    (FarPointer.mk segment (offset + BitVec.ofNat 16 i * stride .byte r)).linear
      = along down (FarPointer.mk segment offset).linear i := by
  have hoffset := offset.isLt
  cases down with
  | false =>
    have hfits : offset.toNat + count ≤ 0x10000 := hroom
    have hstride : stride .byte r = 1#16 := by
      unfold stride
      rw [hdown]
      rfl
    have hindex : (offset + BitVec.ofNat 16 i * stride .byte r).toNat = offset.toNat + i := by
      rw [hstride, BitVec.mul_one, BitVec.toNat_add, Word.toNat_ofNat_of_lt (by omega)]
      omega
    simp only [FarPointer.linear, along, hindex]
    exact (Nat.add_assoc ..).symm
  | true =>
    have hfits : count ≤ offset.toNat + 1 := hroom
    have hstride : stride .byte r = -1#16 := by
      unfold stride
      rw [hdown]
      rfl
    have hindex : (offset + BitVec.ofNat 16 i * stride .byte r).toNat = offset.toNat - i := by
      rw [hstride, BitVec.mul_neg, BitVec.mul_one, ← BitVec.sub_eq_add_neg, BitVec.toNat_sub,
        Word.toNat_ofNat_of_lt (by omega)]
      omega
    simp only [FarPointer.linear, along, hindex]
    exact (Nat.add_sub_assoc (by omega) _).symm

theorem HasRoom.le_linear {down : Bool} {segment offset : Word} {count i : Nat}
    (hroom : HasRoom down offset count) (hi : i < count) (hdown : down = true) :
    i ≤ (FarPointer.mk segment offset).linear := by
  subst hdown
  have hfits : count ≤ offset.toNat + 1 := hroom
  simp only [FarPointer.linear]
  omega

/-- Where a byte of the source lies among those of the target. -/
theorem along_eq_along_iff {down : Bool} {s t i k : Nat} (hi : down = true → i ≤ s)
    (hk : down = true → k ≤ t) :
    along down s i = along down t k ↔ (i : Int) = lead down s t + k := by
  cases down with
  | false =>
    simp only [along, lead, Bool.false_eq_true, if_false]
    omega
  | true =>
    have hsource := hi rfl
    have htarget := hk rfl
    simp only [along, lead, if_true]
    omega

/-- Different bytes of the target lie at different addresses. -/
theorem along_injective {down : Bool} {t i k : Nat} (hi : down = true → i ≤ t)
    (hk : down = true → k ≤ t) (h : along down t k = along down t i) : k = i := by
  have hzero : lead down t t = 0 := by
    unfold lead
    split <;> exact Int.sub_self _
  have heq := (along_eq_along_iff hk hi).mp h
  omega

/-! ## Which byte ends up where -/

section

variable {count i k : Nat} {ahead : Int}

/-- A byte that the copy has itself put there comes from where the byte before it came from. -/
theorem copiedFrom_eq_of_ahead (hi : i < count) (hk : k < i) (hahead : (i : Int) = ahead + k) :
    copiedFrom count ahead k = copiedFrom count ahead i := by
  have hoverlap : ¬ (ahead ≤ 0 ∨ count ≤ ahead) := by omega
  have hsum : i = k + ahead.toNat := by omega
  unfold copiedFrom
  rw [if_neg hoverlap, if_neg hoverlap, hsum, Nat.add_mod_right]

/-- Any other byte is as it was before. -/
theorem copiedFrom_eq_self (hahead : ∀ k, k < i → (i : Int) ≠ ahead + k) :
    copiedFrom count ahead i = i := by
  unfold copiedFrom
  split
  case isTrue => rfl
  case isFalse hoverlap =>
    refine Nat.mod_eq_of_lt (Nat.lt_of_not_le fun hle => ?_)
    exact hahead (i - ahead.toNat) (by omega) (by omega)

end

/-! ## One byte -/

/-- What has become of a machine when `i` bytes have been copied. -/
structure Copied (m : Machine) (down : Bool) (n s t i : Nat) (now : Machine) : Prop where
  registers : now.registers = registersAfter .movs .byte m.registers i
  outside : m.memory.SameOutside
    (m.memory.Behind fun address => ∃ k, k < i ∧ address = along down t k) now.memory
  bytes : ∀ k, k < i → now.memory.byte? (along down t k)
    = m.memory.byte? (along down s (copiedFrom n (lead down s t) k))

section

variable {m now : Machine} {segment : Word} {down : Bool} {n s t i : Nat}

theorem Copied.start (m : Machine) (down : Bool) (n s t : Nat) : Copied m down n s t 0 m where
  registers := (registersAfter_zero .movs .byte m.registers).symm
  outside := .refl _ _
  bytes k hk := absurd hk (Nat.not_lt_zero k)

theorem linear_source (h : m.Copies segment down n s t) (hi : i < n) :
    (FarPointer.mk segment (registersAfter .movs .byte m.registers i).si).linear
      = along down s i := by
  rw [← h.source]
  exact linear_eq_along h.direction h.sourceRoom hi

theorem linear_target (h : m.Copies segment down n s t) (hi : i < n) :
    (FarPointer.mk m.registers.es (registersAfter .movs .byte m.registers i).di).linear
      = along down t i := by
  rw [← h.target]
  exact linear_eq_along h.direction h.targetRoom hi

theorem le_source (h : m.Copies segment down n s t) (hi : i < n) (hdown : down = true) : i ≤ s := by
  rw [← h.source]
  exact h.sourceRoom.le_linear hi hdown

theorem le_target (h : m.Copies segment down n s t) (hi : i < n) (hdown : down = true) : i ≤ t := by
  rw [← h.target]
  exact h.targetRoom.le_linear hi hdown

/-- What the next byte of the source holds by now. -/
theorem Copied.source_eq (hcopies : m.Copies segment down n s t) (h : Copied m down n s t i now)
    (hi : i < n) : now.memory.byte? (along down s i)
      = m.memory.byte? (along down s (copiedFrom n (lead down s t) i)) := by
  by_cases hput : ∃ k, k < i ∧ along down s i = along down t k
  · -- The copy has put it there.
    obtain ⟨k, hk, heq⟩ := hput
    have hahead := (along_eq_along_iff (le_source hcopies hi)
      (le_target hcopies (hk.trans hi))).mp heq
    rw [heq, h.bytes k hk, copiedFrom_eq_of_ahead hi hk hahead]
  · have hself : copiedFrom n (lead down s t) i = i :=
      copiedFrom_eq_self fun k hk hahead => hput ⟨k, hk, (along_eq_along_iff
        (le_source hcopies hi) (le_target hcopies (hk.trans hi))).mpr hahead⟩
    rw [hself]
    exact h.outside.byte?_eq hcopies.unaliased hput

/-- One more byte. -/
theorem Copied.next (hcopies : m.Copies segment down n s t) (h : Copied m down n s t i now)
    (hi : i < n) : ∃ after, (element .movs .byte segment).run now = (.ok (), after)
      ∧ Copied m down n s t (i + 1) after.counted := by
  have hshape := h.outside.shape
  have hes : now.registers.es = m.registers.es := by
    rw [h.registers]
    rfl
  obtain ⟨value, hread, hvalue⟩ := (hshape.permits_iff.mp (hcopies.readable i hi)).exists_read
  obtain ⟨slot, hlocate⟩ := hcopies.writable i hi
  have hstored : now.memory.locate .write (along down t i) = .ok slot := by
    rw [← hshape.locate_eq]
    exact hlocate
  have hrun : (element .movs .byte segment).run now = (.ok (),
      ⟨advance .movs .byte now.registers, now.memory.setByteAt slot value⟩) := by
    apply run_element_movs
    · rw [h.registers, linear_source hcopies hi]
      exact hread
    · rw [hes, h.registers, linear_target hcopies hi]
      exact hstored
  refine ⟨_, hrun, ?_, ?_, fun k hk => ?_⟩
  · exact registersAfter_succ_of_eq h.registers
  · refine h.outside.append (.setByteAt_self (PagedMemory.backing?_of_locate hstored) value) ?_
    rintro address (⟨k, hk, haddress⟩ | rfl)
    · exact ⟨k, Nat.lt_succ_of_lt hk, haddress⟩
    · exact ⟨i, Nat.lt_succ_self i, rfl⟩
  · show (now.memory.setByteAt slot value).byte? (along down t k) = _
    have hle := Nat.le_of_lt_succ hk
    rw [(hcopies.built.tiled.of_sameShape hshape).byte?_setByteAt
      (hcopies.unaliased.of_sameShape hshape) hstored]
    split
    case isTrue heq =>
      obtain rfl := along_injective (le_target hcopies hi)
        (le_target hcopies (Nat.lt_of_le_of_lt hle hi)) heq
      exact hvalue.symm.trans (h.source_eq hcopies hi)
    case isFalse hne =>
      exact h.bytes k (Nat.lt_of_le_of_ne hle fun heq => hne (heq ▸ rfl))

/-- All bytes. -/
theorem exists_run_copy (hcopies : m.Copies segment down n s t) (repetition : Repetition) :
    ∃ last, (elements .movs .byte segment repetition n).run m = (.ok (), last)
      ∧ Copied m down n s t n last := by
  refine exists_run_elements (fun i now _ => Copied m down n s t i now)
    (fun i now _ hi h => h.next hcopies hi) (fun i now _ _ _ _ => ?_) []
    (Copied.start m down n s t) (.inl (Nat.zero_add n).symm)
  exact isOver_of_compares_eq_false rfl repetition now.registers

end

end StringOperation

namespace Machine

variable {m : Machine} {head : Head} {repetition : Repetition} {down : Bool} {n s t : Nat}

/-- What is to be copied does not depend on where the instruction lies. -/
theorem Copies.past {segment : Word} (h : m.Copies segment down n s t) (length : Nat) :
    (m.past length).Copies segment down n s t :=
  ⟨h.built, h.unaliased, h.count, h.direction, h.source, h.target, h.sourceRoom, h.targetRoom,
    h.readable, h.writable⟩

/-- A repeated copy of `n` bytes from `s` to `t` moves both indices by `n`, down to a counter of
zero, and leaves the flags alone. Byte `i` of the target becomes byte `i` of the source as it was
before, or byte `i` modulo the distance if the target is ahead of the source by less than `n`; no
other byte of any region changes. -/
theorem step_repeated_copy (hrepeats : m.Repeats head .movs .byte repetition)
    (hcopies : m.Copies (m.sourceSegment head) down n s t) :
    m.step = (.continued, ⟨{ m.registers with
        ip := m.registers.ip + BitVec.ofNat 16 head.length
        cx := 0
        si := m.registers.si + BitVec.ofNat 16 n * stride .byte m.registers
        di := m.registers.di + BitVec.ofNat 16 n * stride .byte m.registers }, m.step.2.memory⟩)
      ∧ (∀ i, i < n → m.step.2.memory.byte? (along down t i)
        = m.memory.byte? (along down s (copiedFrom n (lead down s t) i)))
      ∧ (∀ address, (∀ i, i < n → address ≠ along down t i) →
        m.step.2.memory.byte? address = m.memory.byte? address)
      ∧ m.memory.SameOutside
        (m.memory.Behind fun address => ∃ i, i < n ∧ address = along down t i)
        m.step.2.memory := by
  obtain ⟨last, hrun, hcopied⟩ := exists_run_copy (hcopies.past head.length) repetition
  rw [← hcopies.count] at hrun
  have hcounter := cx_registersAfter hcopies.count .movs .byte
  have hlast : last
      = ⟨registersAfter .movs .byte (m.past head.length).registers n, last.memory⟩ := by
    rw [← hcopied.registers]
  rw [hrepeats.step_eq hrun]
  refine ⟨?_, hcopied.bytes, fun address hother => ?_, hcopied.outside⟩
  · rw [hlast, ← hcounter]
    rfl
  · exact hcopied.outside.byte?_eq hcopies.unaliased fun ⟨i, hi, heq⟩ => hother i hi heq

/-- Five bytes from address 16 on are to be copied to address 18. -/
def replicating : Machine :=
  ⟨{ Registers.initial with si := 0x10, di := 0x12, cx := 5 },
    .onePage ([0xf3, 0xa4] ++ (List.replicate 14 0 ++ [1, 2]))⟩

theorem step_repeated_copy_replicating :
    replicating.step.1 = .continued
      ∧ ∀ i, i < 5 → replicating.step.2.memory.byte? (0x12 + i)
        = some (if i % 2 = 0 then 1 else 2) := by
  let head : Head := ⟨[0xf3], 0xa4, none, by decide, by decide, rfl, rfl⟩
  have hfaces : replicating.Faces ([0xf3, 0xa4] ++ (List.replicate 14 0 ++ [1, 2])) :=
    faces_onePage [] rfl rfl (by decide)
  have hpermits (access : Access) (address : Nat) (haddress : address < pageSize) :
      replicating.memory.Permits access address :=
    PagedMemory.permits_onePage _ access haddress
  have hcopies : replicating.Copies (replicating.sourceSegment head) false 5 0x10 0x12 :=
    { built := PagedMemory.built_onePage _
      unaliased := PagedMemory.unaliased_onePage _
      count := rfl
      direction := rfl
      source := rfl
      target := rfl
      sourceRoom := by decide
      targetRoom := by decide
      readable := fun i hi => hpermits _ _ (by
        show 0x10 + i < 0x1000
        omega)
      writable := fun i hi => hpermits _ _ (by
        show 0x12 + i < 0x1000
        omega) }
  obtain ⟨hstep, hbytes, -⟩ :=
    step_repeated_copy ⟨(faces_append_iff.mp hfaces).1, rfl, rfl⟩ hcopies
  refine ⟨congrArg Prod.fst hstep, fun i hi => (hbytes i hi).trans ?_⟩
  show (PagedMemory.onePage _).byte? (0x10 + i % 2) = _
  have hparity := Nat.mod_two_eq_zero_or_one i
  rcases hparity with hparity | hparity
  · rw [hparity, PagedMemory.byte?_onePage (by decide) (by decide)]
    rfl
  · rw [hparity, PagedMemory.byte?_onePage (by decide) (by decide)]
    rfl

end Machine

end CmStream
