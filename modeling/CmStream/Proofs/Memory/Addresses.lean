import CmStream.Proofs.Machine.Plain
import CmStream.Proofs.Memory.Laws

/-!
# Bytes by their addresses

Where no byte lies behind two addresses, a store is seen at its own address and nowhere else. How
far a sequence of stores goes is said by the addresses that were stored to: nothing changes but the
bytes behind them.
-/

namespace CmStream

/-- In one segment, different offsets have different addresses. -/
theorem FarPointer.linear_injective {segment offset offset' : Word}
    (h : (FarPointer.mk segment offset).linear = (FarPointer.mk segment offset').linear) :
    offset = offset' :=
  BitVec.eq_of_toNat_eq (Nat.add_left_cancel h)

theorem FarPointer.linear_advance_ne (place : FarPointer) :
    place.linear ≠ (place.advance 1).linear := by
  intro heq
  have hoffset : place.offset = place.offset + 1 := linear_injective heq
  bv_omega

namespace PagedMemory

variable {m m' : PagedMemory} {access : Access} {address other : Nat} {slot : Slot}
  {addresses more : Nat → Prop}

theorem backing?_of_locate (h : m.locate access address = .ok slot) :
    m.backing? address = some slot :=
  (locate_eq_ok_iff.mp h).1

theorem SameShape.backing?_eq (h : SameShape m m') (address : Nat) :
    m.backing? address = m'.backing? address := by
  unfold backing?
  rw [h.page?_eq]

theorem SameShape.permits_iff (h : SameShape m m') :
    m.Permits access address ↔ m'.Permits access address := by
  unfold Permits
  rw [h.locate_eq]

theorem byte?_of_locate (h : m.locate access address = .ok slot) :
    m.byte? address = some (m.byteAt slot) := by
  rw [byte?, backing?_of_locate h]
  rfl

theorem permits_iff_isOk : m.Permits access address ↔ (m.locate access address).isOk = true := by
  unfold Permits
  cases m.locate access address with
  | ok slot => exact iff_of_true ⟨slot, rfl⟩ rfl
  | error fault => exact iff_of_false (fun ⟨slot, hslot⟩ => by cases hslot) Bool.false_ne_true

instance (m : PagedMemory) (access : Access) (address : Nat) :
    Decidable (m.Permits access address) :=
  decidable_of_iff _ permits_iff_isOk.symm

/-- What an access that is granted finds. -/
theorem Permits.exists_read (h : m.Permits access address) :
    ∃ byte, m.read access address = .ok byte ∧ m.byte? address = some byte := by
  obtain ⟨slot, hlocate⟩ := h
  refine ⟨m.byteAt slot, ?_, byte?_of_locate hlocate⟩
  rw [read, hlocate]
  rfl

/-- A store is seen at its address and at no other. -/
theorem Tiled.byte?_setByteAt (h : Tiled m) (hunaliased : m.Unaliased)
    (hlocate : m.locate access address = .ok slot) (value : Byte) (other : Nat) :
    (m.setByteAt slot value).byte? other
      = if other = address then some value else m.byte? other := by
  unfold byte?
  rw [← (sameShape_setByteAt m slot value).backing?_eq]
  by_cases hsame : other = address
  · rw [if_pos hsame, hsame, backing?_of_locate hlocate, Option.map_some,
      h.byteAt_setByteAt_self hlocate]
  · rw [if_neg hsame]
    cases hother : m.backing? other with
    | none => rfl
    | some seen =>
      have hne : slot ≠ seen := by
        rintro rfl
        exact hsame (hunaliased _ _ _ hother (backing?_of_locate hlocate))
      rw [Option.map_some, Option.map_some, byteAt_setByteAt_of_ne _ _ hne]

theorem Unaliased.of_sameShape (h : m.Unaliased) (hshape : SameShape m m') : m'.Unaliased := by
  intro address address' slot hslot hslot'
  rw [← hshape.backing?_eq] at hslot hslot'
  exact h address address' slot hslot hslot'

namespace SameOutside

theorem refl (hidden : Slot → Prop) (m : PagedMemory) : SameOutside hidden m m :=
  ⟨SameShape.refl m, fun _ _ => rfl⟩

theorem mono (h : m.SameOutside (m.Behind addresses) m')
    (hmore : ∀ address, addresses address → more address) : m.SameOutside (m.Behind more) m' :=
  ⟨h.shape, fun slot hslot => h.bytes slot fun ⟨address, haddress, hbacking⟩ =>
    hslot ⟨address, hmore address haddress, hbacking⟩⟩

/-- A store to an address changes nothing but the byte behind it. -/
theorem setByteAt_self (hslot : m.backing? address = some slot) (value : Byte) :
    m.SameOutside (m.Behind (· = address)) (m.setByteAt slot value) := by
  refine ⟨sameShape_setByteAt m slot value, fun seen hseen => ?_⟩
  refine (byteAt_setByteAt_of_ne m value fun heq => hseen ?_).symm
  exact heq ▸ ⟨address, rfl, hslot⟩

/-- Changes behind some addresses, and then behind some more. -/
theorem append {last : PagedMemory} {all : Nat → Prop}
    (h : m.SameOutside (m.Behind addresses) m') (h' : m'.SameOutside (m'.Behind more) last)
    (hall : ∀ address, addresses address ∨ more address → all address) :
    m.SameOutside (m.Behind all) last := by
  refine ⟨h.shape.trans h'.shape, fun seen hseen => ?_⟩
  have hfirst : ¬ m.Behind addresses seen := fun ⟨address, haddress, hslot⟩ =>
    hseen ⟨address, hall address (.inl haddress), hslot⟩
  have hsecond : ¬ m'.Behind more seen := fun ⟨address, haddress, hslot⟩ =>
    hseen ⟨address, hall address (.inr haddress), by rwa [h.shape.backing?_eq]⟩
  exact (h.bytes seen hfirst).trans (h'.bytes seen hsecond)

/-- At an address that is not among those that were stored to, the byte is the same. -/
theorem byte?_eq (h : m.SameOutside (m.Behind addresses) m') (hunaliased : m.Unaliased)
    (hother : ¬ addresses other) : m'.byte? other = m.byte? other := by
  unfold byte?
  rw [← h.shape.backing?_eq]
  cases hslot : m.backing? other with
  | none => rfl
  | some slot =>
    have hseen : ¬ m.Behind addresses slot := fun ⟨address, haddress, hbacking⟩ =>
      hother (hunaliased _ _ _ hbacking hslot ▸ haddress)
    rw [Option.map_some, Option.map_some, h.bytes slot hseen]

end SameOutside

/-! ## A single page -/

/-- Pages that begin differently, and are the same from some place on. -/
theorem sameOutside_onePage {bytes bytes' : List Byte} {n : Nat}
    (hbytes : bytes.length ≤ pageSize) (hbytes' : bytes'.length ≤ pageSize)
    (h : bytes.drop n = bytes'.drop n) :
    (onePage bytes).SameOutside (·.offset < n) (onePage bytes') := by
  refine ⟨sameShape_onePage bytes bytes', fun slot hslot => ?_⟩
  refine byteAt_onePage_congr hbytes hbytes' ?_
  rw [← Nat.add_sub_of_le (Nat.le_of_not_lt hslot), ← List.getElem?_drop, h, List.getElem?_drop]

theorem backing?_onePage (bytes : List Byte) (address : Nat) :
    (onePage bytes).backing? address = if address < pageSize then some ⟨0, address⟩ else none := by
  by_cases hwithin : address < pageSize
  · rw [if_pos hwithin]
    exact backing?_of_locate (locate_onePage bytes .read hwithin)
  · have hbehind : ¬ address / pageSize < 1 := fun hlt =>
      hwithin (Nat.lt_of_div_eq_zero (by decide) (Nat.lt_one_iff.mp hlt))
    have hnone : (onePage bytes).page? (address / pageSize) = none := by
      rw [onePage, page?_mapPages, if_neg fun h => hbehind h.2.2]
      exact page?_empty _
    rw [if_neg hwithin, backing?, hnone]
    rfl

theorem unaliased_onePage (bytes : List Byte) : (onePage bytes).Unaliased := by
  intro address address' slot hslot hslot'
  rw [backing?_onePage, Option.ite_none_right_eq_some] at hslot hslot'
  exact congrArg Slot.offset (Option.some.inj (hslot.2.trans hslot'.2.symm))

theorem permits_onePage (bytes : List Byte) (access : Access) (h : address < pageSize) :
    (onePage bytes).Permits access address :=
  ⟨_, locate_onePage bytes access h⟩

theorem byte?_onePage {bytes : List Byte} (h : address < bytes.length)
    (hbytes : bytes.length ≤ pageSize) : (onePage bytes).byte? address = some bytes[address] := by
  obtain ⟨byte, hread, hbyte⟩ :=
    (permits_onePage bytes .read (Nat.lt_of_lt_of_le h hbytes)).exists_read
  rw [hbyte, Except.ok.inj (hread.symm.trans (read_onePage .read h hbytes))]

end PagedMemory

end CmStream
