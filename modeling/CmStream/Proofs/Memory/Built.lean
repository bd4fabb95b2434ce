import CmStream.FarPointer
import CmStream.Proofs.Memory.Mapping
import CmStream.Proofs.Memory.Slots

/-!
# Memories that can be built

A memory comes about by allocating regions, filling and mapping them, and storing bytes. Every
page of such a memory shows a whole window of its region, and windows begin at whole pages. So
every access that is granted finds a byte that exists, and neighbouring places are different
bytes, whichever pages show them.
-/

namespace CmStream

namespace PagedMemory

inductive Built : PagedMemory → Prop
  | empty : Built empty
  | allocate {m : PagedMemory} (length : Nat) (before : Built m) : Built (m.allocate length)
  | poke {m : PagedMemory} (index offset : Nat) (bytes : List Byte) (before : Built m) :
      Built (m.poke index offset bytes)
  | map {m m' : PagedMemory} {base index : Nat} {permissions : Permissions} (before : Built m)
      (maps : m.map base index permissions = .ok m') : Built m'
  | store {m : PagedMemory} (slot : Slot) (value : Byte) (before : Built m) :
      Built (m.setByteAt slot value)

theorem Built.storeAll {m : PagedMemory} (h : Built m) (stores : List Store) :
    Built (m.storeAll stores) := by
  induction stores generalizing m with
  | nil => exact h
  | cons store stores ih => exact ih (h.store store.slot store.value)

/-- Pages show windows that begin at whole pages and lie within their regions. -/
def Tiled (m : PagedMemory) : Prop :=
  ∀ index page, m.page? index = some page →
    page.offset % pageSize = 0 ∧ page.offset + pageSize ≤ (m.region page.region).size

namespace Tiled

variable {m m' : PagedMemory} {access : Access} {slot : Slot}

theorem of_sameShape (h : Tiled m) (hshape : m.SameShape m') : Tiled m' := by
  intro index page hpage
  rw [← hshape.page?_eq] at hpage
  rw [← hshape.length]
  exact h index page hpage

theorem allocate (h : Tiled m) (length : Nat) : Tiled (m.allocate length) := by
  intro index page hpage
  obtain ⟨haligned, hwindow⟩ := h index page hpage
  refine ⟨haligned, ?_⟩
  rw [region_allocate]
  split
  case isTrue hnew =>
    -- A window into a region that does not exist yet has no room.
    have hnone : (m.region page.region).size = 0 := by
      rw [hnew, region, Array.getD_eq_getD_getElem?, Array.getElem?_eq_none (Nat.le_refl _)]
      rfl
    rw [hnone, pageSize] at hwindow
    omega
  case isFalse => exact hwindow

theorem map {base index : Nat} {permissions : Permissions} (h : Tiled m)
    (hmap : m.map base index permissions = .ok m') : Tiled m' := by
  unfold PagedMemory.map at hmap
  dsimp only at hmap
  split at hmap
  case isTrue => cases hmap
  case isFalse =>
    split at hmap
    case isTrue => cases hmap
    case isFalse hlength =>
      split at hmap
      case isTrue => cases hmap
      case isFalse =>
        split at hmap
        case h_1 => cases hmap
        case h_2 =>
          cases hmap
          intro i page hpage
          rw [page?_mapPages] at hpage
          rw [region_mapPages]
          split at hpage
          case isTrue hrange =>
            cases hpage
            refine ⟨Nat.mul_mod_left _ _, ?_⟩
            simp only [pageSize] at hlength hrange ⊢
            omega
          case isFalse => exact h i page hpage

end Tiled

theorem Built.tiled {m : PagedMemory} (h : Built m) : Tiled m := by
  induction h with
  | empty =>
    intro index page hpage
    rw [page?_empty] at hpage
    cases hpage
  | allocate length before ih => exact ih.allocate length
  | poke index offset bytes before ih => exact ih.of_sameShape (sameShape_poke _ _ _ _)
  | map before maps ih => exact ih.map maps
  | store slot value before ih => exact ih.of_sameShape (sameShape_setByteAt _ _ _)

section

variable {m : PagedMemory} {access access' : Access} {address address' : Nat} {slot slot' : Slot}

/-- What an access finds lies in its region, and as far behind a whole page as its address. -/
theorem Tiled.of_locate_eq_ok (h : Tiled m) (hlocate : m.locate access address = .ok slot) :
    slot.offset % pageSize = address % pageSize
      ∧ slot.offset < (m.region slot.region).size := by
  unfold locate at hlocate
  split at hlocate
  case h_1 page hpage =>
    split at hlocate
    case isTrue =>
      cases hlocate
      obtain ⟨haligned, hwindow⟩ := h _ page hpage
      simp only [pageSize] at haligned hwindow ⊢
      omega
    case isFalse => cases hlocate
  case h_2 => cases hlocate

/-- Places that lie differently within their pages are different bytes. -/
theorem Tiled.slot_ne (h : Tiled m) (hlocate : m.locate access address = .ok slot)
    (hlocate' : m.locate access' address' = .ok slot')
    (hne : address % pageSize ≠ address' % pageSize) : slot ≠ slot' := by
  rintro rfl
  exact hne ((h.of_locate_eq_ok hlocate).1.symm.trans (h.of_locate_eq_ok hlocate').1)

/-- Which byte lies behind an address does not depend on the kind of access. -/
theorem locate_unique (hlocate : m.locate access address = .ok slot)
    (hlocate' : m.locate access' address = .ok slot') : slot = slot' := by
  unfold locate at hlocate hlocate'
  split at hlocate
  case h_1 page hpage =>
    rw [hpage] at hlocate'
    dsimp only at hlocate'
    split at hlocate
    case isTrue =>
      split at hlocate'
      case isTrue =>
        cases hlocate
        cases hlocate'
        rfl
      case isFalse => cases hlocate'
    case isFalse => cases hlocate
  case h_2 => cases hlocate

/-- A store, and what is read behind it. -/
theorem Tiled.byteAt_setByteAt_self (h : Tiled m) (hlocate : m.locate access address = .ok slot)
    (value : Byte) : (m.setByteAt slot value).byteAt slot = value := by
  rw [PagedMemory.byteAt_setByteAt_self, if_pos (h.of_locate_eq_ok hlocate).2]

/-! ## A single page -/

/-- A memory of a single page with the given bytes at its beginning, open to every access. -/
def onePage (bytes : List Byte) : PagedMemory :=
  ((empty.allocate pageSize).poke 0 0 bytes).mapPages 0 1 0 Permissions.all

theorem size_region_blank : ((empty.allocate pageSize).region 0).size = pageSize := by
  rw [region_allocate, if_pos (show 0 = empty.regions.size from rfl), Array.size_replicate]

theorem built_onePage (bytes : List Byte) : Built (onePage bytes) := by
  have hsize : (((empty.allocate pageSize).poke 0 0 bytes).region 0).size = pageSize := by
    rw [← (sameShape_poke _ _ _ _).length, size_region_blank]
  have hmap : ((empty.allocate pageSize).poke 0 0 bytes).map 0 0 Permissions.all
      = .ok (onePage bytes) := by
    have hwhole : (((empty.allocate pageSize).poke 0 0 bytes).region 0).size % pageSize = 0 := by
      rw [hsize, Nat.mod_self]
    rw [map_eq_ok Permissions.all (Nat.zero_mod _) hwhole (by rw [hsize]; decide)
      fun i _ _ => page?_empty i, hsize]
    rfl
  exact .map (.poke 0 0 bytes (.allocate pageSize .empty)) hmap

theorem SameShape.mapPages {m₁ m₂ : PagedMemory} (h : SameShape m₁ m₂) (first count index : Nat)
    (permissions : Permissions) :
    SameShape (m₁.mapPages first count index permissions)
      (m₂.mapPages first count index permissions) := by
  refine ⟨?_, ?_, fun i => ?_⟩
  · unfold PagedMemory.mapPages
    rw [h.pages]
  · unfold PagedMemory.mapPages
    exact h.regions
  · rw [region_mapPages, region_mapPages, h.length]

theorem sameShape_onePage (bytes bytes' : List Byte) :
    SameShape (onePage bytes) (onePage bytes') :=
  SameShape.mapPages ((sameShape_poke (empty.allocate pageSize) 0 0 bytes).symm.trans
    (sameShape_poke _ 0 0 bytes')) 0 1 0 Permissions.all

theorem byteAt_onePage {bytes : List Byte} {offset : Nat} (h : offset < bytes.length)
    (hbytes : bytes.length ≤ pageSize) : (onePage bytes).byteAt ⟨0, offset⟩ = bytes[offset] := by
  have hinside : 0 + offset < ((empty.allocate pageSize).region 0).size := by
    rw [size_region_blank]
    omega
  have hbyte := byteAt_poke_add h hinside
  rw [Nat.zero_add] at hbyte
  rw [onePage, byteAt_mapPages, hbyte]

theorem byteAt_onePage_of_outside {bytes : List Byte} {slot : Slot}
    (h : slot.region = 0 → bytes.length ≤ slot.offset) :
    (onePage bytes).byteAt slot = (empty.allocate pageSize).byteAt slot := by
  unfold onePage
  rw [byteAt_mapPages, byteAt_poke_of_outside fun hregion => .inr ?_]
  rw [Nat.zero_add]
  exact h hregion

/-- Where two pages begin with the same bytes, they hold the same. -/
theorem byteAt_onePage_congr {bytes bytes' : List Byte} {slot : Slot}
    (hbytes : bytes.length ≤ pageSize) (hbytes' : bytes'.length ≤ pageSize)
    (h : bytes[slot.offset]? = bytes'[slot.offset]?) :
    (onePage bytes).byteAt slot = (onePage bytes').byteAt slot := by
  by_cases hbyte : slot.region = 0 ∧ slot.offset < bytes.length
  · obtain ⟨region, offset⟩ := slot
    obtain ⟨rfl, hoffset⟩ := hbyte
    obtain ⟨hoffset', hsame⟩ :=
      List.getElem?_eq_some_iff.mp (h.symm.trans (List.getElem?_eq_getElem hoffset))
    rw [byteAt_onePage hoffset hbytes, byteAt_onePage hoffset' hbytes', hsame]
  · have hoffset : slot.region = 0 → bytes.length ≤ slot.offset := fun hregion =>
      Nat.le_of_not_lt fun hlt => hbyte ⟨hregion, hlt⟩
    have hoffset' : slot.region = 0 → bytes'.length ≤ slot.offset := fun hregion =>
      List.getElem?_eq_none_iff.mp (h.symm.trans (List.getElem?_eq_none (hoffset hregion)))
    rw [byteAt_onePage_of_outside hoffset, byteAt_onePage_of_outside hoffset']

theorem locate_onePage (bytes : List Byte) (access : Access) (h : address < pageSize) :
    (onePage bytes).locate access address = .ok ⟨0, address⟩ := by
  have hpage : address / pageSize = 0 := Nat.div_eq_of_lt h
  unfold locate onePage
  rw [hpage, page?_mapPages, if_pos ⟨by decide, Nat.le_refl 0, Nat.one_pos⟩]
  dsimp only
  rw [if_pos (Permissions.grants_all access), Nat.mod_eq_of_lt h, Nat.sub_self, Nat.zero_mul,
    Nat.zero_add]

theorem read_onePage {bytes : List Byte} (access : Access) (h : address < bytes.length)
    (hbytes : bytes.length ≤ pageSize) :
    (onePage bytes).read access address = .ok bytes[address] := by
  unfold read
  rw [locate_onePage bytes access (Nat.lt_of_lt_of_le h hbytes)]
  exact congrArg Except.ok (byteAt_onePage h hbytes)

end

/-- The two bytes of a word lie differently within their pages, also where the segment wraps. -/
theorem linear_advance_one_ne (place : FarPointer) :
    place.linear % pageSize ≠ (place.advance 1).linear % pageSize := by
  have hoffset := place.offset.isLt
  have hnext : (place.offset + (1 : Word)).toNat = (place.offset.toNat + 1) % 65536 :=
    BitVec.toNat_add _ _
  simp only [FarPointer.linear, FarPointer.advance, pageSize]
  omega

end PagedMemory

end CmStream
