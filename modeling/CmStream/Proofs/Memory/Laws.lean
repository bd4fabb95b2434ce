import CmStream.Memory.History
import CmStream.Proofs.Memory.Built

/-!
# The laws of memory

Every memory that comes about by operations obeys the laws. That its pages show whole windows of
regions is an invariant of the operations; the rest follows from it.
-/

namespace CmStream

namespace PagedMemory

variable {m : PagedMemory} {base index : Nat}

/-! ## Histories -/

theorem write_eq_ok {address : Nat} {value : Byte} {written : PagedMemory}
    (h : m.write address value = .ok written) :
    ∃ slot, m.locate .write address = .ok slot ∧ written = m.setByteAt slot value := by
  unfold write at h
  cases hlocate : m.locate .write address with
  | ok slot =>
    rw [hlocate] at h
    exact ⟨slot, rfl, (Except.ok.inj h).symm⟩
  | error fault =>
    rw [hlocate] at h
    cases h

theorem Built.perform (h : Built m) (operation : Operation) : Built (m.perform operation) := by
  cases operation with
  | allocate length => exact h.allocate length
  | map base index permissions =>
    rw [PagedMemory.perform]
    split
    case h_1 mapped hmap => exact h.map hmap
    case h_2 => exact h
  | write address value =>
    rw [PagedMemory.perform]
    split
    case h_1 written hwrite =>
      obtain ⟨slot, -, rfl⟩ := write_eq_ok hwrite
      exact h.store slot value
    case h_2 => exact h
  | poke index offset bytes => exact h.poke index offset bytes

theorem Built.foldl (h : Built m) (operations : List Operation) :
    Built (operations.foldl PagedMemory.perform m) := by
  induction operations generalizing m with
  | nil => exact h
  | cons operation operations ih => exact ih (h.perform operation)

/-! ## Windows -/

/-- A window has room only in a region that exists. -/
theorem lt_size_regions {room : Nat} (h : room < (m.region index).size) :
    index < m.regions.size := by
  refine Nat.lt_of_not_le fun hle => ?_
  rw [region, Array.getD_eq_getD_getElem?, Array.getElem?_eq_none hle] at h
  exact Nat.not_lt_zero _ h

theorem Tiled.window (h : Tiled m) {page : Page} (hpage : m.page? index = some page) :
    page.region < m.regions.size ∧ page.offset % pageSize = 0
      ∧ page.offset + pageSize ≤ (m.region page.region).size := by
  obtain ⟨haligned, hwindow⟩ := h index page hpage
  exact ⟨lt_size_regions (Nat.lt_of_lt_of_le (Nat.lt_add_of_pos_right (by decide)) hwindow),
    haligned, hwindow⟩

theorem Tiled.exists_byte (h : Tiled m) {access : Access} {address : Nat} {slot : Slot}
    (hlocate : m.locate access address = .ok slot) :
    ∃ region byte, m.regions[slot.region]? = some region ∧ region[slot.offset]? = some byte := by
  have hoffset := (h.of_locate_eq_ok hlocate).2
  have hregion := lt_size_regions hoffset
  have hfound : m.regions[slot.region]? = some (m.region slot.region) := by
    rw [region, Array.getD_eq_getD_getElem?, Array.getElem?_eq_getElem hregion]
    rfl
  exact ⟨_, _, hfound, Array.getElem?_eq_getElem hoffset⟩

/-! ## Mapping -/

/-- For whole pages, to be covered is to be among the pages that are counted. -/
theorem covers_iff {length i : Nat} (hbase : base % pageSize = 0)
    (hlength : length % pageSize = 0) :
    Covers base length i ↔ base / pageSize ≤ i ∧ i < base / pageSize + length / pageSize := by
  simp only [Covers, pageSize] at *
  omega

theorem pageCount_lt_iff {length : Nat} (hbase : base % pageSize = 0)
    (hlength : length % pageSize = 0) :
    pageCount < base / pageSize + length / pageSize ↔ addressLimit < base + length := by
  simp only [addressLimit, pageCount, pageSize] at *
  omega

theorem Unmappable.not_mappable {error : MapError} (h : m.Unmappable base index error) :
    ¬ m.Mappable base index := by
  intro hmappable
  cases h with
  | unalignedBase unaligned => exact unaligned hmappable.alignedBase
  | unalignedLength _ unaligned => exact unaligned hmappable.alignedLength
  | outOfRange _ _ exceeds => exact Nat.not_lt.mpr hmappable.fits exceeds
  | overlap _ _ _ covered mapped _ =>
    rw [hmappable.free _ covered] at mapped
    cases mapped

/-- There is one reason only that comes first. -/
theorem Unmappable.unique {error error' : MapError} (h : m.Unmappable base index error)
    (h' : m.Unmappable base index error') : error = error' := by
  cases h with
  | unalignedBase unaligned =>
    cases h' with
    | unalignedBase => rfl
    | unalignedLength aligned | outOfRange aligned | overlap aligned =>
      exact absurd aligned unaligned
  | unalignedLength aligned unaligned =>
    cases h' with
    | unalignedBase unaligned' => exact absurd aligned unaligned'
    | unalignedLength => rfl
    | outOfRange _ aligned' | overlap _ aligned' => exact absurd aligned' unaligned
  | outOfRange alignedBase alignedLength exceeds =>
    cases h' with
    | unalignedBase unaligned => exact absurd alignedBase unaligned
    | unalignedLength _ unaligned => exact absurd alignedLength unaligned
    | outOfRange => rfl
    | overlap _ _ fits => exact absurd exceeds (Nat.not_lt.mpr fits)
  | @overlap lowest alignedBase alignedLength fits covered mapped free =>
    cases h' with
    | unalignedBase unaligned => exact absurd alignedBase unaligned
    | unalignedLength _ unaligned => exact absurd alignedLength unaligned
    | outOfRange _ _ exceeds => exact absurd exceeds (Nat.not_lt.mpr fits)
    | @overlap lowest' _ _ _ covered' mapped' free' =>
      obtain hlt | rfl | hlt := Nat.lt_trichotomy lowest lowest'
      · rw [free' lowest covered hlt] at mapped
        cases mapped
      · rfl
      · rw [free lowest' covered' hlt] at mapped'
        cases mapped'

/-- Mapping succeeds, or it names the first reason that it cannot. -/
theorem map_cases (m : PagedMemory) (base index : Nat) (permissions : Permissions) :
    (m.Mappable base index ∧ m.map base index permissions
        = .ok (m.mapPages (base / pageSize) ((m.region index).size / pageSize) index permissions))
      ∨ ∃ error, m.Unmappable base index error
        ∧ m.map base index permissions = .error error := by
  by_cases hbase : base % pageSize = 0
  case neg => exact .inr ⟨_, .unalignedBase hbase, by simp [map, hbase]⟩
  by_cases hlength : (m.region index).size % pageSize = 0
  case neg => exact .inr ⟨_, .unalignedLength hbase hlength, by simp [map, hbase, hlength]⟩
  by_cases hroom : addressLimit < base + (m.region index).size
  case pos =>
    refine .inr ⟨_, .outOfRange hbase hlength hroom, ?_⟩
    simp [map, hbase, hlength, (pageCount_lt_iff hbase hlength).mpr hroom]
  have hfits := Nat.le_of_not_lt hroom
  rw [← pageCount_lt_iff hbase hlength] at hroom
  cases hfind : (List.range' (base / pageSize) ((m.region index).size / pageSize)).find?
      fun i => (m.page? i).isSome with
  | none =>
    have hfree (i : Nat) (hi : Covers base (m.region index).size i) : m.page? i = none := by
      have hnone := List.find?_eq_none.mp hfind i
        (List.mem_range'_1.mpr ((covers_iff hbase hlength).mp hi))
      rwa [Bool.not_eq_true, Option.isSome_eq_false_iff, Option.isNone_iff_eq_none] at hnone
    refine .inl ⟨⟨hbase, hlength, hfits, hfree⟩, map_eq_ok permissions hbase hlength
      (Nat.le_of_not_lt hroom) fun i hlower hupper => ?_⟩
    exact hfree i ((covers_iff hbase hlength).mpr ⟨hlower, hupper⟩)
  | some lowest =>
    obtain ⟨hmapped, hrange, hfirst⟩ := List.find?_range'_eq_some.mp hfind
    refine .inr ⟨_, .overlap hbase hlength hfits ((covers_iff hbase hlength).mpr
      (List.mem_range'_1.mp hrange)) hmapped fun i hi hlt => ?_, ?_⟩
    · have hnone := hfirst i ((covers_iff hbase hlength).mp hi).1 hlt
      rwa [Bool.not_eq_true', Option.isSome_eq_false_iff, Option.isNone_iff_eq_none] at hnone
    · simp only [map, hbase, hlength, ne_eq, not_true_eq_false, if_false, hroom, hfind]

theorem exists_map_eq_ok_iff (permissions : Permissions) :
    (∃ mapped, m.map base index permissions = .ok mapped) ↔ m.Mappable base index := by
  obtain ⟨hmappable, hmap⟩ | ⟨error, hunmappable, hmap⟩ := map_cases m base index permissions
  · exact iff_of_true ⟨_, hmap⟩ hmappable
  · refine iff_of_false (fun ⟨mapped, hok⟩ => ?_) hunmappable.not_mappable
    cases hmap.symm.trans hok

theorem map_eq_error_iff (permissions : Permissions) {error : MapError} :
    m.map base index permissions = .error error ↔ m.Unmappable base index error := by
  obtain ⟨hmappable, hmap⟩ | ⟨first, hunmappable, hmap⟩ := map_cases m base index permissions
  · refine iff_of_false (fun herror => ?_) fun hunmappable => hunmappable.not_mappable hmappable
    cases hmap.symm.trans herror
  · rw [hmap, Except.error.injEq]
    exact ⟨fun heq => heq ▸ hunmappable, hunmappable.unique⟩

theorem perform_map_of_not_mappable (permissions : Permissions) (h : ¬ m.Mappable base index) :
    m.perform (.map base index permissions) = m := by
  rw [PagedMemory.perform]
  split
  case h_1 mapped hmap => exact absurd ((exists_map_eq_ok_iff permissions).mp ⟨mapped, hmap⟩) h
  case h_2 => rfl

/-- What a range of pages shows once a region has been mapped there. -/
theorem map_eq_ok_pages {permissions : Permissions} {mapped : PagedMemory}
    (h : m.map base index permissions = .ok mapped) :
    mapped.regions = m.regions
      ∧ ∀ i, mapped.page? i = if Covers base (m.region index).size i then
          some ⟨index, i * pageSize - base, permissions⟩
        else m.page? i := by
  obtain ⟨hmappable, hmap⟩ | ⟨error, -, hmap⟩ := map_cases m base index permissions
  · obtain rfl := Except.ok.inj (hmap.symm.trans h)
    refine ⟨by simp only [mapPages], fun i => ?_⟩
    have hcovers : Covers base (m.region index).size i ↔ i < pageCount ∧ base / pageSize ≤ i
        ∧ i < base / pageSize + (m.region index).size / pageSize := by
      have hroom := mt (pageCount_lt_iff hmappable.alignedBase hmappable.alignedLength).mp
        (Nat.not_lt.mpr hmappable.fits)
      rw [covers_iff hmappable.alignedBase hmappable.alignedLength]
      omega
    have hoffset : (i - base / pageSize) * pageSize = i * pageSize - base := by
      have hwhole : base / pageSize * pageSize = base :=
        Nat.div_mul_cancel (Nat.dvd_of_mod_eq_zero hmappable.alignedBase)
      rw [Nat.sub_mul, hwhole]
    simp only [page?_mapPages, hcovers, hoffset]
  · cases hmap.symm.trans h

/-! ## Writing -/

theorem locate_eq_ok_iff {access : Access} {address : Nat} {slot : Slot} :
    m.locate access address = .ok slot ↔ m.backing? address = some slot
      ∧ ∃ page, m.page? (address / pageSize) = some page
        ∧ page.permissions.grants access = true := by
  unfold locate backing?
  cases m.page? (address / pageSize) with
  | none => simp
  | some page =>
    by_cases hgrants : page.permissions.grants access = true
    · simp [hgrants]
    · simp [hgrants]

/-- A write is seen at every address of the same byte, and at no other. -/
theorem Tiled.read_write (h : Tiled m) {address : Nat} {value : Byte} {written : PagedMemory}
    (hwrite : m.write address value = .ok written) (access : Access) (other : Nat) :
    written.read access other
      = if m.backing? other = m.backing? address then (m.read access other).map fun _ => value
        else m.read access other := by
  obtain ⟨slot, hlocate, rfl⟩ := write_eq_ok hwrite
  have hslot := (locate_eq_ok_iff.mp hlocate).1
  unfold read
  rw [← (sameShape_setByteAt m slot value).locate_eq, hslot]
  cases hother : m.locate access other with
  | error fault => split <;> rfl
  | ok found =>
    rw [(locate_eq_ok_iff.mp hother).1]
    by_cases hsame : found = slot
    · subst hsame
      rw [if_pos rfl]
      exact congrArg Except.ok (h.byteAt_setByteAt_self hlocate value)
    · rw [if_neg fun heq => hsame (Option.some.inj heq)]
      exact congrArg Except.ok (byteAt_setByteAt_of_ne m value (Ne.symm hsame))

/-- Every memory that comes about by operations obeys the laws. -/
theorem lawful_after (operations : List Operation) : Lawful (after operations) := by
  have htiled := (Built.empty.foldl operations).tiled
  exact
    { window := fun _ _ => htiled.window
      within := fun _ _ _ => htiled.exists_byte
      mappable := fun _ _ => exists_map_eq_ok_iff
      maps := fun _ _ _ _ => map_eq_ok_pages
      unmappable := fun _ _ permissions _ => map_eq_error_iff permissions
      unchanged := fun _ _ => perform_map_of_not_mappable
      writes := fun _ _ _ => htiled.read_write }

/-- One region behind two pages: what is written through one of them is read through the other. -/
example : ((after [.allocate pageSize, .map 0 0 Permissions.all, .map pageSize 0 Permissions.all,
    .write 5 7]).read .read 0x1005).toOption = some 7 := by
  decide +kernel

end PagedMemory

end CmStream
