import CmStream.Memory.PagedMemory

/-!
# Slots, and the pages that show them

A slot is a byte of a region; programs reach it only through a page whose window contains it.
A store changes the byte of one slot and neither the page table nor the length of a region, so
a sequence of stores is described by the slots in it. Which slots are reachable, and how,
depends on the page table alone.
-/

namespace CmStream

namespace Permissions

/-- The permission bit for a kind of access, of a valid page or of another. -/
def bit (p : Permissions) : Access → Bool
  | .read => p.read
  | .write => p.write
  | .execute => p.execute

theorem grants_eq_false_iff {p : Permissions} {access : Access} :
    p.grants access = false ↔ p.valid = false ∨ p.bit access = false := by
  cases access <;> exact Bool.and_eq_false_iff

end Permissions

namespace Page

/-- The slot lies in the window that the page shows. -/
def Shows (page : Page) (slot : Slot) : Prop :=
  page.region = slot.region ∧ page.offset ≤ slot.offset ∧ slot.offset < page.offset + pageSize

end Page

namespace PagedMemory

variable {m m₁ m₂ m₃ : PagedMemory} {slot other : Slot}

/-- Some page shows the slot and grants the access. -/
def Grants (m : PagedMemory) (access : Access) (slot : Slot) : Prop :=
  ∃ index page, m.page? index = some page ∧ page.Shows slot ∧ page.permissions.grants access = true

/-- An access to the address is refused: its page is unmapped, is not valid, or lacks the bit. -/
def Refuses (m : PagedMemory) (access : Access) (address : Nat) : Prop :=
  ∀ page, m.page? (address / pageSize) = some page →
    page.permissions.valid = false ∨ page.permissions.bit access = false

theorem grants_of_locate_eq_ok {access : Access} {address : Nat}
    (h : m.locate access address = .ok slot) : m.Grants access slot := by
  unfold locate at h
  split at h
  case h_1 page hpage =>
    split at h
    case isTrue hgrants =>
      cases h
      have hlt : address % pageSize < pageSize := Nat.mod_lt _ (by decide)
      refine ⟨address / pageSize, page, hpage, ?_, hgrants⟩
      exact ⟨rfl, Nat.le_add_right _ _, Nat.add_lt_add_left hlt _⟩
    case isFalse => contradiction
  case h_2 => contradiction

theorem locate_eq_error {access : Access} {address : Nat} {fault : Fault}
    (h : m.locate access address = .error fault) :
    fault = ⟨address, access⟩ ∧ m.Refuses access address := by
  unfold locate at h
  split at h
  case h_1 page hpage =>
    split at h
    case isTrue => contradiction
    case isFalse hgrants =>
      cases h
      refine ⟨rfl, fun shown hshown => ?_⟩
      rw [hpage] at hshown
      cases hshown
      exact Permissions.grants_eq_false_iff.mp ((Bool.not_eq_true _).mp hgrants)
  case h_2 hnone =>
    cases h
    refine ⟨rfl, fun shown hshown => ?_⟩
    rw [hnone] at hshown
    contradiction

/-- A read fails only where its address leads nowhere. -/
theorem read_eq_error {access : Access} {address : Nat} {fault : Fault}
    (h : m.read access address = .error fault) :
    fault = ⟨address, access⟩ ∧ m.Refuses access address := by
  unfold read at h
  cases hlocate : m.locate access address with
  | ok slot =>
    rw [hlocate] at h
    contradiction
  | error refused =>
    rw [hlocate] at h
    cases h
    exact locate_eq_error hlocate

/-! ## One store -/

theorem region_setByteAt (m : PagedMemory) (slot : Slot) (value : Byte) (index : Nat) :
    (m.setByteAt slot value).region index
      = if slot.region = index then (m.region index).setIfInBounds slot.offset value
        else m.region index := by
  unfold region setByteAt
  rw [Array.getD_eq_getD_getElem?, Array.getD_eq_getD_getElem?, Array.getElem?_modify]
  by_cases hregion : slot.region = index
  · rw [if_pos hregion, if_pos hregion]
    cases m.regions[index]? with
    | none => rfl
    | some bytes => rfl
  · rw [if_neg hregion, if_neg hregion]

@[simp] theorem size_region_setByteAt (m : PagedMemory) (slot : Slot) (value : Byte)
    (index : Nat) : ((m.setByteAt slot value).region index).size = (m.region index).size := by
  rw [region_setByteAt]
  split
  · rw [Array.size_setIfInBounds]
  · rfl

@[simp] theorem size_regions_setByteAt (m : PagedMemory) (slot : Slot) (value : Byte) :
    (m.setByteAt slot value).regions.size = m.regions.size :=
  Array.size_modify

/-- What a store leaves at its own slot: nothing, if the slot lies behind the end of its region. -/
theorem byteAt_setByteAt_self (m : PagedMemory) (slot : Slot) (value : Byte) :
    (m.setByteAt slot value).byteAt slot
      = if slot.offset < (m.region slot.region).size then value else 0 := by
  unfold byteAt
  rw [region_setByteAt, if_pos rfl, Array.getD_eq_getD_getElem?,
    Array.getElem?_setIfInBounds_self]
  split <;> rfl

theorem byteAt_setByteAt_of_ne (m : PagedMemory) (value : Byte) (h : slot ≠ other) :
    (m.setByteAt slot value).byteAt other = m.byteAt other := by
  unfold byteAt
  rw [region_setByteAt]
  by_cases hregion : slot.region = other.region
  · -- Two slots of one region differ in their offsets.
    have hoffset : slot.offset ≠ other.offset := by
      intro hoffset
      apply h
      cases slot
      cases other
      cases hregion
      cases hoffset
      rfl
    rw [if_pos hregion, Array.getD_eq_getD_getElem?, Array.getD_eq_getD_getElem?,
      Array.getElem?_setIfInBounds_ne hoffset]
  · rw [if_neg hregion]

/-! ## Memories of one shape -/

/-- The same page table, as many regions, and regions of the same lengths. -/
structure SameShape (m₁ m₂ : PagedMemory) : Prop where
  pages : m₁.pages = m₂.pages
  regions : m₁.regions.size = m₂.regions.size
  length : ∀ index, (m₁.region index).size = (m₂.region index).size

namespace SameShape

theorem refl (m : PagedMemory) : SameShape m m := ⟨rfl, rfl, fun _ => rfl⟩

theorem symm (h : SameShape m₁ m₂) : SameShape m₂ m₁ :=
  ⟨h.pages.symm, h.regions.symm, fun index => (h.length index).symm⟩

theorem trans (h : SameShape m₁ m₂) (h' : SameShape m₂ m₃) : SameShape m₁ m₃ :=
  ⟨h.pages.trans h'.pages, h.regions.trans h'.regions,
    fun index => (h.length index).trans (h'.length index)⟩

theorem page?_eq (h : SameShape m₁ m₂) (index : Nat) : m₁.page? index = m₂.page? index := by
  unfold page?
  rw [h.pages]

theorem locate_eq (h : SameShape m₁ m₂) (access : Access) (address : Nat) :
    m₁.locate access address = m₂.locate access address := by
  unfold locate
  rw [h.page?_eq]

theorem grants_iff (h : SameShape m₁ m₂) {access : Access} :
    m₁.Grants access slot ↔ m₂.Grants access slot := by
  unfold Grants
  simp only [h.page?_eq]

theorem refuses_iff (h : SameShape m₁ m₂) {access : Access} {address : Nat} :
    m₁.Refuses access address ↔ m₂.Refuses access address := by
  unfold Refuses
  rw [h.page?_eq]

end SameShape

theorem sameShape_setByteAt (m : PagedMemory) (slot : Slot) (value : Byte) :
    SameShape m (m.setByteAt slot value) :=
  ⟨rfl, (size_regions_setByteAt m slot value).symm,
    fun index => (size_region_setByteAt m slot value index).symm⟩

theorem SameShape.setByteAt (h : SameShape m₁ m₂) (slot : Slot) (value : Byte) :
    SameShape (m₁.setByteAt slot value) (m₂.setByteAt slot value) :=
  ((sameShape_setByteAt m₁ slot value).symm.trans h).trans (sameShape_setByteAt m₂ slot value)

/-- A store made in two memories of one shape leaves equal what has been equal. -/
theorem byteAt_setByteAt_congr (hshape : SameShape m₁ m₂) (slot : Slot) (value : Byte)
    (h : m₁.byteAt other = m₂.byteAt other) :
    (m₁.setByteAt slot value).byteAt other = (m₂.setByteAt slot value).byteAt other := by
  by_cases hslot : slot = other
  · -- Whether the slot exists, and so takes the byte, is a matter of the shape alone.
    rw [hslot, byteAt_setByteAt_self, byteAt_setByteAt_self, hshape.length]
  · rw [byteAt_setByteAt_of_ne _ _ hslot, byteAt_setByteAt_of_ne _ _ hslot, h]

/-! ## Sequences of stores -/

/-- A byte and the slot that it is stored to. -/
structure Store where
  slot : Slot
  value : Byte
  deriving DecidableEq, Repr

/-- The memory after some stores, the first of them made first. -/
def storeAll (m : PagedMemory) (stores : List Store) : PagedMemory :=
  stores.foldl (fun memory store => memory.setByteAt store.slot store.value) m

theorem storeAll_cons (m : PagedMemory) (store : Store) (stores : List Store) :
    m.storeAll (store :: stores) = (m.setByteAt store.slot store.value).storeAll stores := rfl

theorem storeAll_append (m : PagedMemory) (stores more : List Store) :
    m.storeAll (stores ++ more) = (m.storeAll stores).storeAll more :=
  List.foldl_append

theorem sameShape_storeAll (m : PagedMemory) (stores : List Store) :
    SameShape m (m.storeAll stores) := by
  induction stores generalizing m with
  | nil => exact SameShape.refl m
  | cons store stores ih => exact (sameShape_setByteAt m store.slot store.value).trans (ih _)

/-- A slot that nothing is stored to keeps its byte. -/
theorem byteAt_storeAll_of_notMem {stores : List Store} (h : ∀ store ∈ stores, store.slot ≠ slot) :
    (m.storeAll stores).byteAt slot = m.byteAt slot := by
  induction stores generalizing m with
  | nil => rfl
  | cons store stores ih =>
    rw [storeAll_cons, ih fun later hlater => h later (List.mem_cons_of_mem _ hlater)]
    exact byteAt_setByteAt_of_ne m store.value (h store List.mem_cons_self)

/-- A slot that something is stored to ends with the same byte in two memories of one shape,
whatever they held there before. -/
theorem byteAt_storeAll_congr {stores : List Store} (hshape : SameShape m₁ m₂)
    (h : ∃ store ∈ stores, store.slot = slot) :
    (m₁.storeAll stores).byteAt slot = (m₂.storeAll stores).byteAt slot := by
  induction stores generalizing m₁ m₂ with
  | nil =>
    obtain ⟨store, hmem, -⟩ := h
    contradiction
  | cons store stores ih =>
    rw [storeAll_cons, storeAll_cons]
    by_cases hlater : ∃ later ∈ stores, later.slot = slot
    · exact ih (hshape.setByteAt _ _) hlater
    · -- The first store is the last one to this slot.
      have hkept : ∀ later ∈ stores, later.slot ≠ slot := by
        intro later hmem hslot
        exact hlater ⟨later, hmem, hslot⟩
      have hfirst : store.slot = slot := by
        obtain ⟨found, hmem, hslot⟩ := h
        rcases List.mem_cons.mp hmem with rfl | hmem
        · exact hslot
        · exact absurd hslot (hkept found hmem)
      rw [byteAt_storeAll_of_notMem hkept, byteAt_storeAll_of_notMem hkept, hfirst,
        byteAt_setByteAt_self, byteAt_setByteAt_self, hshape.length]

/-! ## Bytes put into a region whatever the pages permit -/

@[simp] theorem size_overwrite (target : Array Byte) (offset : Nat) (bytes : List Byte) :
    (overwrite target offset bytes).size = target.size := by
  induction bytes generalizing target offset with
  | nil => rfl
  | cons byte bytes ih => rw [overwrite, ih, Array.size_setIfInBounds]

theorem getElem?_overwrite_of_lt (target : Array Byte) {offset i : Nat} (bytes : List Byte)
    (h : i < offset) : (overwrite target offset bytes)[i]? = target[i]? := by
  induction bytes generalizing target offset with
  | nil => rfl
  | cons byte bytes ih =>
    rw [overwrite, ih _ (Nat.lt_succ_of_lt h), Array.getElem?_setIfInBounds_ne (Nat.ne_of_gt h)]

theorem getElem?_overwrite_of_ge {target : Array Byte} {offset i : Nat} {bytes : List Byte}
    (h : offset + bytes.length ≤ i) : (overwrite target offset bytes)[i]? = target[i]? := by
  induction bytes generalizing target offset with
  | nil => rfl
  | cons byte bytes ih =>
    rw [List.length_cons] at h
    rw [overwrite, ih (by omega), Array.getElem?_setIfInBounds_ne (by omega)]

theorem getElem?_overwrite_add {target : Array Byte} {offset i : Nat} {bytes : List Byte}
    (hi : i < bytes.length) (hsize : offset + i < target.size) :
    (overwrite target offset bytes)[offset + i]? = bytes[i]? := by
  induction bytes generalizing target offset i with
  | nil => contradiction
  | cons byte bytes ih =>
    rw [overwrite]
    cases i with
    | zero =>
      have hkept := getElem?_overwrite_of_lt (target.setIfInBounds offset byte) bytes
        (Nat.lt_succ_self offset)
      exact hkept.trans (Array.getElem?_setIfInBounds_self_of_lt hsize)
    | succ i =>
      rw [show offset + (i + 1) = offset + 1 + i by omega]
      rw [ih (Nat.lt_of_succ_lt_succ hi) (by rw [Array.size_setIfInBounds]; omega)]
      rfl

theorem region_poke (m : PagedMemory) (index offset : Nat) (bytes : List Byte) (i : Nat) :
    (m.poke index offset bytes).region i
      = if index = i then overwrite (m.region i) offset bytes else m.region i := by
  unfold region poke
  rw [Array.getD_eq_getD_getElem?, Array.getD_eq_getD_getElem?, Array.getElem?_modify]
  by_cases hindex : index = i
  · rw [if_pos hindex, if_pos hindex]
    cases hregion : m.regions[i]? with
    | some region => rfl
    | none =>
      -- There is no such region: it counts as empty, and stays so.
      exact (Array.eq_empty_of_size_eq_zero (size_overwrite #[] offset bytes)).symm
  · rw [if_neg hindex, if_neg hindex]

theorem poke_nil (m : PagedMemory) (index offset : Nat) : m.poke index offset [] = m := by
  unfold poke overwrite
  have hregions : m.regions.modify index (fun region => region) = m.regions := by
    apply Array.ext_getElem?
    intro i
    rw [Array.getElem?_modify]
    split
    · exact Option.map_id_fun' ▸ rfl
    · rfl
  rw [hregions]

/-- Bytes are put into a region one by one. -/
theorem poke_cons (m : PagedMemory) (index offset : Nat) (byte : Byte) (bytes : List Byte) :
    m.poke index offset (byte :: bytes)
      = (m.setByteAt ⟨index, offset⟩ byte).poke index (offset + 1) bytes := by
  unfold poke setByteAt
  congr 1
  apply Array.ext_getElem?
  intro i
  rw [Array.getElem?_modify, Array.getElem?_modify, Array.getElem?_modify]
  by_cases hi : index = i
  · rw [if_pos hi, if_pos hi, if_pos hi, Option.map_map]
    rfl
  · rw [if_neg hi, if_neg hi, if_neg hi]

theorem poke_append (m : PagedMemory) (index offset : Nat) (bytes more : List Byte) :
    m.poke index offset (bytes ++ more)
      = (m.poke index offset bytes).poke index (offset + bytes.length) more := by
  induction bytes generalizing m offset with
  | nil => rw [List.nil_append, poke_nil, List.length_nil, Nat.add_zero]
  | cons byte bytes ih =>
    rw [List.cons_append, poke_cons, poke_cons, ih, List.length_cons, Nat.add_assoc,
      Nat.add_comm 1]

theorem sameShape_poke (m : PagedMemory) (index offset : Nat) (bytes : List Byte) :
    SameShape m (m.poke index offset bytes) := by
  refine ⟨rfl, Array.size_modify.symm, fun i => ?_⟩
  rw [region_poke]
  split
  · rw [size_overwrite]
  · rfl

/-- The bytes outside of those that are put into a region stay. -/
theorem byteAt_poke_of_outside {index offset : Nat} {bytes : List Byte}
    (h : slot.region = index → slot.offset < offset ∨ offset + bytes.length ≤ slot.offset) :
    (m.poke index offset bytes).byteAt slot = m.byteAt slot := by
  unfold byteAt
  rw [region_poke]
  by_cases hregion : index = slot.region
  · rw [if_pos hregion, Array.getD_eq_getD_getElem?, Array.getD_eq_getD_getElem?]
    rcases h hregion.symm with hlt | hge
    · rw [getElem?_overwrite_of_lt _ bytes hlt]
    · rw [getElem?_overwrite_of_ge hge]
  · rw [if_neg hregion]

theorem byteAt_poke_add {index offset i : Nat} {bytes : List Byte} (hi : i < bytes.length)
    (hsize : offset + i < (m.region index).size) :
    (m.poke index offset bytes).byteAt ⟨index, offset + i⟩ = bytes[i] := by
  unfold byteAt
  rw [region_poke, if_pos rfl, Array.getD_eq_getD_getElem?, getElem?_overwrite_add hi hsize,
    List.getElem?_eq_getElem hi]
  rfl

/-! ## Bytes that a region holds -/

/-- The given bytes lie in a region from an offset on. -/
def Holds (m : PagedMemory) (index offset : Nat) (bytes : List Byte) : Prop :=
  ∀ i, (hi : i < bytes.length) → m.byteAt ⟨index, offset + i⟩ = bytes[i]

section Holds

variable {index offset place : Nat} {bytes more written : List Byte}

theorem holds_append_iff : m.Holds index offset (bytes ++ more)
    ↔ m.Holds index offset bytes ∧ m.Holds index (offset + bytes.length) more := by
  constructor
  · intro h
    refine ⟨fun i hi => ?_, fun i hi => ?_⟩
    · have hinside : i < (bytes ++ more).length := by simp; omega
      rw [h i hinside, List.getElem_append_left hi]
    · have hinside : bytes.length + i < (bytes ++ more).length := by simp; omega
      rw [Nat.add_assoc, h _ hinside, List.getElem_append_right (by omega)]
      simp
  · rintro ⟨hfirst, hsecond⟩ i hi
    by_cases hlt : i < bytes.length
    · rw [hfirst i hlt, List.getElem_append_left hlt]
    · have hplace : offset + i = offset + bytes.length + (i - bytes.length) := by omega
      have hrest : i - bytes.length < more.length := by
        rw [List.length_append] at hi
        omega
      rw [hplace, hsecond _ hrest, List.getElem_append_right (by omega)]

/-- What is put elsewhere leaves them alone. -/
theorem Holds.poke {target : Nat} (h : m.Holds index offset bytes)
    (houtside : index = target → offset + bytes.length ≤ place ∨ place + written.length ≤ offset) :
    (m.poke target place written).Holds index offset bytes := by
  intro i hi
  rw [byteAt_poke_of_outside, h i hi]
  intro hregion
  rcases houtside hregion with hbefore | hbehind
  · exact .inl (by show offset + i < place; omega)
  · exact .inr (by show place + written.length ≤ offset + i; omega)

theorem holds_poke (hsize : offset + bytes.length ≤ (m.region index).size) :
    (m.poke index offset bytes).Holds index offset bytes :=
  fun i hi => byteAt_poke_add hi (by omega)

theorem Holds.peek_eq (h : m.Holds index offset bytes)
    (hsize : offset + bytes.length ≤ (m.region index).size) :
    m.peek index offset bytes.length = bytes := by
  apply List.ext_getElem?
  intro i
  unfold peek
  rw [Array.getElem?_toList, Array.getElem?_extract]
  by_cases hi : i < bytes.length
  · have hinside : offset + i < (m.region index).size := by omega
    have hbyte : (m.region index).getD (offset + i) 0 = bytes[i] := h i hi
    rw [Array.getD_eq_getD_getElem?, Array.getElem?_eq_getElem hinside] at hbyte
    rw [if_pos (by omega), List.getElem?_eq_getElem hi, ← hbyte,
      Array.getElem?_eq_getElem hinside]
    rfl
  · rw [if_neg (by omega), List.getElem?_eq_none (Nat.le_of_not_lt hi)]

/-- Bytes that have been put into a region are found there. -/
theorem peek_poke (hsize : offset + bytes.length ≤ (m.region index).size) :
    (m.poke index offset bytes).peek index offset bytes.length = bytes := by
  apply (holds_poke hsize).peek_eq
  rw [← (sameShape_poke m index offset bytes).length]
  exact hsize

end Holds

end PagedMemory

end CmStream
