import CmStream.Checked.Memory
import CmStream.Proofs.Checked.Attempts
import CmStream.Proofs.Sandbox.Layout

/-!
# Access to memory is defined

A page table is sound if every page shows a window that lies within its region. Then every access
whatsoever is defined: it finds its byte, or it is refused. Allocating, mapping and copying are
defined too, as far as the region exists and has room.
-/

namespace CmStream

namespace Checked

theorem linear_eq_some (place : FarPointer) : linear place = some place.linear := by
  have hsegment := place.segment.isLt
  have hoffset := place.offset.isLt
  have hbase : place.segment.toNat * 16 < 1 <<< 32 := by omega
  have hsum : place.segment.toNat * 16 + place.offset.toNat < 1 <<< 32 := by omega
  unfold linear
  rw [Number.multiply_eq_some hbase]
  exact Number.add_eq_some hsum

/-- Every page shows a window that lies within a region, and regions can be addressed. -/
structure Sound (m : PagedMemory) : Prop where
  window : ∀ index page, m.page? index = some page →
    page.region < m.regions.size ∧ page.offset + pageSize ≤ (m.region page.region).size
  length : ∀ index, (m.region index).size < 1 <<< 63

namespace Sound

variable {m m' : PagedMemory}

theorem of_sameShape (h : Sound m) (hshape : m.SameShape m') : Sound m' where
  window index page hpage := by
    rw [← hshape.page?_eq] at hpage
    rw [← hshape.regions, ← hshape.length]
    exact h.window index page hpage
  length index := by
    rw [← hshape.length]
    exact h.length index

/-- In the layout of a sandbox, sixteen windows of a page each make up a region. -/
theorem of_laidOut (h : Sandbox.LaidOut m) : Sound m where
  window index page hpage := by
    rw [h.page, Sandbox.layoutPage] at hpage
    split at hpage
    case isTrue hindex =>
      cases hpage
      have hregion : index / Sandbox.segmentPages < 3 := by
        simp only [Sandbox.segmentPages] at hindex ⊢
        omega
      refine ⟨by rw [h.regions]; exact hregion, ?_⟩
      rw [h.length _ hregion]
      simp only [Sandbox.segmentPages, pageSize, Sandbox.segmentSize]
      omega
    case isFalse => cases hpage
  length index := by
    by_cases hindex : index < 3
    · rw [h.length index hindex]
      decide
    · have hnone : m.region index = #[] := by
        rw [PagedMemory.region, Array.getD_eq_getD_getElem?,
          Array.getElem?_eq_none (by rw [h.regions]; omega)]
        rfl
      rw [hnone]
      decide

end Sound

/-! ## Access -/

section

variable {m : PagedMemory} {access : Access} {address : Nat} {slot : Slot}

theorem getElem?_regions {index : Nat} (h : index < m.regions.size) :
    m.regions[index]? = some (m.region index) := by
  rw [PagedMemory.region, Array.getD_eq_getD_getElem?, Array.getElem?_eq_getElem h]
  rfl

/-- What an access finds is a byte of a region. -/
theorem Sound.slot_within (h : Sound m) (hlocate : m.locate access address = .ok slot) :
    slot.region < m.regions.size ∧ slot.offset < (m.region slot.region).size := by
  unfold PagedMemory.locate at hlocate
  split at hlocate
  case h_1 page hpage =>
    split at hlocate
    case isTrue =>
      cases hlocate
      obtain ⟨hregion, hwindow⟩ := h.window _ page hpage
      have hwithin : address % pageSize < pageSize := Nat.mod_lt _ (by decide)
      refine ⟨hregion, ?_⟩
      dsimp only
      omega
    case isFalse => cases hlocate
  case h_2 => cases hlocate

theorem matches_locate (h : Sound m) (access : Access) (address : Nat) :
    Matches Eq (locate m access address) (m.locate access address) := by
  unfold locate PagedMemory.locate
  refine Matches.step (Number.divide_eq_some address (by decide)) ?_
  cases hpage : m.page? (address / pageSize) with
  | none => exact Matches.throw _
  | some page =>
    obtain ⟨-, hwindow⟩ := h.window _ page hpage
    have hlength := h.length page.region
    have hwithin : address % pageSize < pageSize := Nat.mod_lt _ (by decide)
    refine Matches.ite (fun _ => ?_) fun _ => Matches.throw _
    refine Matches.step (Number.remainder_eq_some address (by decide)) ?_
    exact Matches.step (Number.add_eq_some (by omega)) (Matches.pure rfl)

theorem run_read (h : Sound m) (access : Access) (address : Nat) :
    (read m access address).run = some (m.read access address) := by
  unfold read PagedMemory.read
  refine Matches.run_eq ((matches_locate h access address).bind_of_ok (g := fun slot =>
    .ok (m.byteAt slot)) ?_)
  rintro slot _ hlocate rfl
  obtain ⟨hregion, hoffset⟩ := h.slot_within hlocate
  have hbyte : (m.region slot.region)[slot.offset]? = some (m.byteAt slot) := by
    rw [PagedMemory.byteAt, Array.getD_eq_getD_getElem?, Array.getElem?_eq_getElem hoffset]
    rfl
  exact Matches.step (getElem?_regions hregion) (Matches.last hbyte rfl)

theorem run_write (h : Sound m) (address : Nat) (value : Byte) :
    (write m address value).run = some (m.write address value) := by
  unfold write PagedMemory.write
  refine Matches.run_eq ((matches_locate h .write address).bind_of_ok (g := fun slot =>
    .ok (m.setByteAt slot value)) ?_)
  rintro slot _ hlocate rfl
  obtain ⟨hregion, hoffset⟩ := h.slot_within hlocate
  refine Matches.step (getElem?_regions hregion) ?_
  rw [if_pos hoffset]
  exact Matches.pure rfl

end

/-! ## Regions -/

section

variable {m : PagedMemory} {index : Nat}

theorem allocate_eq_some (m : PagedMemory) (length : Nat) :
    allocate m length = some (m.regions.size, m.allocate length) := by
  have hsize : (m.allocate length).regions.size = m.regions.size + 1 := Array.size_push ..
  have hindex : Number.subtract (m.allocate length).regions.size 1 = some m.regions.size := by
    rw [hsize]
    exact Number.subtract_eq_some (Nat.le_add_left 1 _)
  simp only [allocate, hindex, Option.bind_eq_bind, Option.bind_some]
  rfl

theorem copyInto_eq_some {start : Nat} {bytes : List Byte} (hindex : index < m.regions.size)
    (hroom : start + bytes.length ≤ (m.region index).size) :
    copyInto m index start (start + bytes.length) bytes = some (m.poke index start bytes) := by
  have hslice : slice (m.region index).toList start (start + bytes.length) = _ :=
    slice_add_eq_some hroom
  have hcount : (((m.region index).toList.drop start).take bytes.length).length = bytes.length := by
    rw [List.length_take, List.length_drop]
    have hsize : (m.region index).toList.length = (m.region index).size := Array.length_toList
    omega
  simp only [copyInto, getElem?_regions hindex, hslice, hcount, Option.bind_eq_bind,
    Option.bind_some, if_true]
  rfl

theorem firstBytes_eq_some {length : Nat} (hindex : index < m.regions.size)
    (hroom : length ≤ (m.region index).size) :
    firstBytes m index length = some (m.peek index 0 length) := by
  have hwithin : 0 + length ≤ (m.region index).toList.length := by
    rw [Nat.zero_add]
    exact hroom
  have hslice := slice_add_eq_some hwithin
  rw [Nat.zero_add] at hslice
  simp only [firstBytes, getElem?_regions hindex, hslice, Option.bind_eq_bind, Option.bind_some]
  rw [PagedMemory.peek, Array.toList_extract, List.extract_eq_take_drop, Nat.zero_add, Nat.sub_zero]

end

/-! ## Pages -/

section

variable {m : PagedMemory}

theorem getElem?_pages {i : Nat} (h : i < pageCount) : m.pages[i]? = some (m.page? i) := by
  rw [PagedMemory.page?, Vector.getElem?_eq_getElem h]
  rfl

theorem firstMapped?_eq_some {places : List Nat} (h : ∀ i ∈ places, i < pageCount) :
    firstMapped? m places = some (places.find? fun i => (m.page? i).isSome) := by
  induction places with
  | nil => rfl
  | cons i rest ih =>
    have hi : i < pageCount := h i List.mem_cons_self
    have hrest := ih fun j hj => h j (List.mem_cons_of_mem i hj)
    simp only [firstMapped?, getElem?_pages hi, Option.bind_eq_bind, Option.bind_some, hrest,
      List.find?_cons]
    cases (m.page? i).isSome with
    | true => rfl
    | false => rfl

/-- One more window behind those that are mapped. -/
theorem pages_mapPages_succ (m : PagedMemory) (first count index : Nat)
    (permissions : Permissions) : (m.mapPages first count index permissions).pages.setIfInBounds
        (first + count) (some ⟨index, count * pageSize, permissions⟩)
      = (m.mapPages first (count + 1) index permissions).pages := by
  refine Vector.ext fun i hi => ?_
  rw [@Vector.getElem_setIfInBounds _ pageCount i (first + count)
    (m.mapPages first count index permissions).pages _ hi]
  unfold PagedMemory.mapPages
  dsimp only
  rw [Vector.getElem_ofFn, Vector.getElem_ofFn]
  dsimp only
  by_cases hlast : first + count = i
  · subst hlast
    rw [if_pos rfl, if_pos ⟨Nat.le_add_right _ _, Nat.lt_succ_self _⟩, Nat.add_sub_cancel_left]
  · have hrange : (first ≤ i ∧ i < first + (count + 1)) ↔ first ≤ i ∧ i < first + count := by
      omega
    simp only [if_neg hlast, hrange]

theorem mapPages_zero (m : PagedMemory) (first index : Nat) (permissions : Permissions) :
    m.mapPages first 0 index permissions = m := by
  have hpages : (m.mapPages first 0 index permissions).pages = m.pages := by
    refine Vector.ext fun i hi => ?_
    unfold PagedMemory.mapPages
    dsimp only
    rw [Vector.getElem_ofFn]
    exact if_neg (by omega)
  exact congrArg (PagedMemory.mk m.regions) hpages

/-- One window after another shows what all windows at once do. -/
theorem mapWindows_eq_some (m : PagedMemory) {first start count : Nat} (index : Nat)
    (permissions : Permissions) (hroom : first + (start + count) ≤ pageCount) :
    mapWindows (m.mapPages first start index permissions) first index permissions
        (List.range' start count)
      = some (m.mapPages first (start + count) index permissions) := by
  induction count generalizing start with
  | zero => rfl
  | succ count ih =>
    have hplace : first + start < 1 <<< 64 := by
      simp only [pageCount] at hroom
      omega
    have hoffset : start * pageSize < 1 <<< 64 := by
      simp only [pageCount, pageSize] at hroom ⊢
      omega
    have hnext : first + start < pageCount := by omega
    have hbehind : first + (start + 1 + count) ≤ pageCount := by omega
    have hrest := ih hbehind
    rw [Nat.add_assoc, Nat.add_comm 1 count] at hrest
    rw [List.range'_succ]
    simp only [mapWindows, Number.add_eq_some hplace, Number.multiply_eq_some hoffset,
      Option.bind_eq_bind, Option.bind_some]
    have hsize : (m.mapPages first start index permissions).pages.size = pageCount := by rfl
    have hregions : (m.mapPages first start index permissions).regions
        = (m.mapPages first (start + 1) index permissions).regions := by rfl
    rw [pages_mapPages_succ, hsize, if_pos hnext, hregions]
    generalize m.mapPages first (start + 1) index permissions = mapped at hrest ⊢
    exact hrest

/-- A region that exists is mapped as it is without looking up the pages one by one. -/
theorem run_map {base index : Nat} (hindex : index < m.regions.size) (hbase : base < 1 <<< 32)
    (hlength : (m.region index).size < 1 <<< 63) (permissions : Permissions) :
    (map m base index permissions).run = some (m.map base index permissions) := by
  have hpages : pageSize ≠ 0 := by decide
  have hstop : base / pageSize + (m.region index).size / pageSize < 1 <<< 64 := by
    have hfirst := Nat.div_le_self base pageSize
    have hcount := Nat.div_le_self (m.region index).size pageSize
    omega
  unfold map PagedMemory.map
  refine Matches.run_eq (Matches.step (getElem?_regions hindex) ?_)
  refine Matches.step (Number.remainder_eq_some base hpages) (Matches.guard _ fun _ => ?_)
  refine Matches.step (Number.remainder_eq_some _ hpages) (Matches.guard _ fun _ => ?_)
  refine Matches.step (Number.divide_eq_some base hpages) ?_
  refine Matches.step (Number.divide_eq_some _ hpages) ?_
  refine Matches.step (Number.add_eq_some hstop) (Matches.guard _ fun hroom => ?_)
  have hroom : base / pageSize + (m.region index).size / pageSize ≤ pageCount :=
    Nat.le_of_not_lt hroom
  refine Matches.step (firstMapped?_eq_some fun i hi => ?_) ?_
  · have hrange := List.mem_range'_1.mp hi
    omega
  · cases hfind : (List.range' (base / pageSize) ((m.region index).size / pageSize)).find?
        fun i => (m.page? i).isSome with
    | none =>
      have hwindows : base / pageSize + (0 + (m.region index).size / pageSize) ≤ pageCount := by
        rw [Nat.zero_add]
        exact hroom
      have hmapped := mapWindows_eq_some m index permissions hwindows
      rw [Nat.zero_add, ← List.range_eq_range', mapPages_zero] at hmapped
      exact Matches.last hmapped rfl
    | some i =>
      have hrange := List.mem_range'_1.mp (List.mem_of_find?_eq_some hfind)
      have haddress : i * pageSize < 1 <<< 64 := by
        simp only [pageCount, pageSize] at hrange hroom ⊢
        omega
      exact Matches.step (Number.multiply_eq_some haddress) (Matches.throw _)

end

end Checked

end CmStream
