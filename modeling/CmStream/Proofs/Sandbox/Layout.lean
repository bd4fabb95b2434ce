import CmStream.Proofs.Memory.Mapping
import CmStream.Proofs.Memory.Slots
import CmStream.Sandbox

/-!
# The layout of the sandbox

Three regions of one segment each are mapped one behind the other with all permissions. Setting
them up never fails, and no store changes anything about it; so an address below the end of the
third region always leads to its byte, and entering a call always succeeds.
-/

namespace CmStream

namespace Sandbox

variable {m : PagedMemory}

/-- The number of pages of a segment. -/
def segmentPages : Nat := 16

/-- What the page table of a sandbox has under a number. -/
def layoutPage (index : Nat) : Option Page :=
  if index < 3 * segmentPages then
    some ⟨index / segmentPages, index % segmentPages * pageSize, Permissions.all⟩
  else none

/-- A memory with the page table, the number of regions and the lengths of regions that a
sandbox begins with. -/
structure LaidOut (m : PagedMemory) : Prop where
  page : ∀ index, m.page? index = layoutPage index
  regions : m.regions.size = 3
  length : ∀ index, index < 3 → (m.region index).size = segmentSize

namespace LaidOut

theorem of_sameShape {m' : PagedMemory} (h : LaidOut m) (hshape : m.SameShape m') :
    LaidOut m' where
  page index := (hshape.page?_eq index).symm.trans (h.page index)
  regions := hshape.regions.symm.trans h.regions
  length index hindex := (hshape.length index).symm.trans (h.length index hindex)

/-- Every access below the end of the third region is granted and leads to the byte that the
address counts in the row of regions. -/
theorem locate_eq_ok {address : Nat} (h : LaidOut m) (access : Access)
    (haddress : address < 3 * segmentSize) :
    m.locate access address = .ok ⟨address / segmentSize, address % segmentSize⟩ := by
  have hpage : address / pageSize < 3 * segmentPages := by
    simp only [segmentSize, pageSize, segmentPages] at haddress ⊢
    omega
  unfold PagedMemory.locate
  rw [h.page, layoutPage, if_pos hpage]
  simp only [Permissions.grants_all, if_true]
  congr 2
  · simp only [segmentSize, pageSize, segmentPages]
    omega
  · simp only [segmentSize, pageSize, segmentPages]
    omega

/-- Behind the end of the third region nothing is mapped. -/
theorem locate_eq_error {address : Nat} (h : LaidOut m) (access : Access)
    (haddress : 3 * segmentSize ≤ address) :
    m.locate access address = .error ⟨address, access⟩ := by
  have hpage : ¬ address / pageSize < 3 * segmentPages := by
    simp only [segmentSize, pageSize, segmentPages] at haddress ⊢
    omega
  unfold PagedMemory.locate
  rw [h.page, layoutPage, if_neg hpage]

theorem read_eq_ok {address : Nat} (h : LaidOut m) (access : Access)
    (haddress : address < 3 * segmentSize) :
    m.read access address = .ok (m.byteAt ⟨address / segmentSize, address % segmentSize⟩) := by
  unfold PagedMemory.read
  rw [h.locate_eq_ok access haddress]
  rfl

end LaidOut

/-! ## Setting a sandbox up -/

/-- The three regions with their contents, before anything is mapped. -/
def contents (code : List Byte) : PagedMemory :=
  ((((PagedMemory.empty.allocate segmentSize).allocate segmentSize).allocate segmentSize).poke
    codeRegion 0 [haltingByte]).poke codeRegion stackReserve code

/-- Shows a region in the pages of its segment. -/
def mapSegment (m : PagedMemory) (index : Nat) : PagedMemory :=
  m.mapPages (index * segmentPages) segmentPages index Permissions.all

@[simp] theorem region_mapSegment (m : PagedMemory) (index i : Nat) :
    (mapSegment m index).region i = m.region i :=
  PagedMemory.region_mapPages ..

@[simp] theorem regions_mapSegment (m : PagedMemory) (index : Nat) :
    (mapSegment m index).regions = m.regions := by
  simp only [mapSegment, PagedMemory.mapPages]

/-- The memory that a sandbox begins with. -/
def initialMemory (code : List Byte) : PagedMemory :=
  mapSegment (mapSegment (mapSegment (contents code) codeRegion) inputRegion) outputRegion

/-- The sandbox for an image that fits. -/
def initial (image : Image) : Sandbox :=
  ⟨⟨Registers.initial, initialMemory image.code⟩, image.entry⟩

theorem size_region_contents (code : List Byte) {index : Nat} (hindex : index < 3) :
    ((contents code).region index).size = segmentSize := by
  unfold contents
  rw [← (PagedMemory.sameShape_poke _ codeRegion stackReserve code).length,
    ← (PagedMemory.sameShape_poke _ codeRegion 0 [haltingByte]).length,
    PagedMemory.region_allocate, PagedMemory.region_allocate, PagedMemory.region_allocate]
  have hcases : index = 0 ∨ index = 1 ∨ index = 2 := by omega
  rcases hcases with rfl | rfl | rfl
  · rw [if_neg (by decide), if_neg (by decide), if_pos (by decide), Array.size_replicate]
  · rw [if_neg (by decide), if_pos (by decide), Array.size_replicate]
  · rw [if_pos (by decide), Array.size_replicate]

theorem page?_contents (code : List Byte) (index : Nat) : (contents code).page? index = none :=
  PagedMemory.page?_empty index

theorem page?_mapSegment (m : PagedMemory) {index : Nat} (hindex : index < 3) (i : Nat) :
    (mapSegment m index).page? i
      = if i / segmentPages = index then
          some ⟨index, i % segmentPages * pageSize, Permissions.all⟩
        else m.page? i := by
  have hrange : (i < pageCount ∧ index * segmentPages ≤ i
      ∧ i < index * segmentPages + segmentPages) ↔ i / segmentPages = index := by
    simp only [segmentPages, pageCount]
    omega
  have hoffset : i / segmentPages = index → i - index * segmentPages = i % segmentPages := by
    simp only [segmentPages]
    omega
  unfold mapSegment
  rw [PagedMemory.page?_mapPages]
  by_cases hi : i / segmentPages = index
  · rw [if_pos (hrange.mpr hi), if_pos hi, hoffset hi]
  · rw [if_neg fun h => hi (hrange.mp h), if_neg hi]

theorem map_eq_mapSegment {index : Nat} (hindex : index < 3)
    (hlength : (m.region index).size = segmentSize)
    (hfree : ∀ i, i / segmentPages = index → m.page? i = none) :
    m.map (regionBase index) index Permissions.all = .ok (mapSegment m index) := by
  have hfirst : regionBase index / pageSize = index * segmentPages := by
    simp only [regionBase, segmentSize, pageSize, segmentPages]
    omega
  have hcount : (m.region index).size / pageSize = segmentPages := by
    rw [hlength]
    rfl
  unfold mapSegment
  rw [← hfirst, ← hcount]
  apply PagedMemory.map_eq_ok
  · simp only [regionBase, segmentSize, pageSize]
    omega
  · rw [hlength]
    rfl
  · rw [hfirst, hcount]
    simp only [segmentPages, pageCount]
    omega
  · intro i hlower hupper
    rw [hfirst] at hlower hupper
    rw [hcount] at hupper
    apply hfree
    simp only [segmentPages] at hlower hupper ⊢
    omega

theorem layOut_of_maps {code : List Byte} {m₁ m₂ m₃ : PagedMemory}
    (hcode : (contents code).map (regionBase codeRegion) codeRegion Permissions.all = .ok m₁)
    (hinput : m₁.map (regionBase inputRegion) inputRegion Permissions.all = .ok m₂)
    (houtput : m₂.map (regionBase outputRegion) outputRegion Permissions.all = .ok m₃) :
    layOut code = .ok m₃ := by
  unfold contents at hcode
  unfold layOut
  dsimp only
  rw [hcode]
  simp only [bind, Except.bind, hinput, houtput]

theorem map_code (code : List Byte) :
    (contents code).map (regionBase codeRegion) codeRegion Permissions.all
      = .ok (mapSegment (contents code) codeRegion) :=
  map_eq_mapSegment (by decide) (size_region_contents code (by decide))
    fun i _ => page?_contents code i

theorem map_input (code : List Byte) :
    (mapSegment (contents code) codeRegion).map (regionBase inputRegion) inputRegion
        Permissions.all
      = .ok (mapSegment (mapSegment (contents code) codeRegion) inputRegion) := by
  apply map_eq_mapSegment (by decide)
  · rw [region_mapSegment]
    exact size_region_contents code (by decide)
  · -- The pages that are taken belong to the segment in front.
    intro i hi
    rw [page?_mapSegment _ (by decide), if_neg (by rw [hi]; decide)]
    exact page?_contents code i

theorem map_output (code : List Byte) :
    (mapSegment (mapSegment (contents code) codeRegion) inputRegion).map
        (regionBase outputRegion) outputRegion Permissions.all
      = .ok (initialMemory code) := by
  apply map_eq_mapSegment (by decide)
  · rw [region_mapSegment, region_mapSegment]
    exact size_region_contents code (by decide)
  · intro i hi
    rw [page?_mapSegment _ (by decide), if_neg (by rw [hi]; decide),
      page?_mapSegment _ (by decide), if_neg (by rw [hi]; decide)]
    exact page?_contents code i

theorem layOut_eq (code : List Byte) : layOut code = .ok (initialMemory code) :=
  layOut_of_maps (map_code code) (map_input code) (map_output code)

theorem laidOut_initialMemory (code : List Byte) : LaidOut (initialMemory code) := by
  refine ⟨fun index => ?_, ?_, fun index hindex => ?_⟩
  · unfold initialMemory
    rw [page?_mapSegment _ (by decide), page?_mapSegment _ (by decide),
      page?_mapSegment _ (by decide), page?_contents]
    unfold layoutPage
    by_cases hindex : index < 3 * segmentPages
    · have hcases : index / segmentPages = 0 ∨ index / segmentPages = 1
          ∨ index / segmentPages = 2 := by
        simp only [segmentPages] at hindex ⊢
        omega
      rw [if_pos hindex]
      rcases hcases with h | h | h <;> rw [h] <;> rfl
    · have hbehind : 3 ≤ index / segmentPages := by
        simp only [segmentPages] at hindex ⊢
        omega
      have houtside : ∀ region, region < 3 → index / segmentPages ≠ region := by
        omega
      rw [if_neg hindex, if_neg (houtside outputRegion (by decide)),
        if_neg (houtside inputRegion (by decide)), if_neg (houtside codeRegion (by decide))]
  · exact Array.size_modify.trans Array.size_modify
  · rw [initialMemory, region_mapSegment, region_mapSegment, region_mapSegment]
    exact size_region_contents code hindex

theorem load_eq_ok {image : Image} (h : image.code.length ≤ codeSpace) :
    load image = .ok (initial image) := by
  unfold load
  rw [if_neg (Nat.not_lt.mpr h), layOut_eq]
  rfl

theorem load_eq_error {image : Image} (h : codeSpace < image.code.length) :
    load image = .error (.capacity image.code.length codeSpace) := by
  unfold load
  rw [if_pos h]

end Sandbox

end CmStream
