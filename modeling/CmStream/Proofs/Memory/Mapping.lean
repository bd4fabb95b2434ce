import CmStream.Memory.PagedMemory

/-!
# Setting memory up

What regions hold after one has been allocated, what `PagedMemory.page?` finds in an empty page
table and in one that a range of pages has been added to, and that mapping succeeds on free pages.
-/

namespace CmStream

namespace PagedMemory

theorem page?_empty (i : Nat) : empty.page? i = none := by
  unfold page? empty
  by_cases hi : i < pageCount
  · rw [Vector.getElem?_eq_getElem hi, Vector.getElem_replicate]
    rfl
  · rw [Vector.getElem?_eq_none (Nat.le_of_not_lt hi)]
    rfl

theorem page?_mapPages (m : PagedMemory) (first count index : Nat) (permissions : Permissions)
    (i : Nat) : (m.mapPages first count index permissions).page? i
      = if i < pageCount ∧ first ≤ i ∧ i < first + count then
          some ⟨index, (i - first) * pageSize, permissions⟩
        else m.page? i := by
  unfold page? mapPages
  by_cases hi : i < pageCount
  · rw [Vector.getElem?_eq_getElem hi, Vector.getElem_ofFn, Vector.getElem?_eq_getElem hi]
    by_cases hrange : first ≤ i ∧ i < first + count
    · rw [if_pos hrange, if_pos ⟨hi, hrange⟩]
      rfl
    · rw [if_neg hrange, if_neg fun h => hrange h.2]
      rfl
  · rw [Vector.getElem?_eq_none (Nat.le_of_not_lt hi),
      Vector.getElem?_eq_none (Nat.le_of_not_lt hi), if_neg fun h => hi h.1]

theorem region_allocate (m : PagedMemory) (length i : Nat) :
    (m.allocate length).region i
      = if i = m.regions.size then Array.replicate length 0 else m.region i := by
  unfold region allocate
  rw [Array.getD_eq_getD_getElem?, Array.getD_eq_getD_getElem?, Array.getElem?_push]
  split
  · rfl
  · rfl

@[simp] theorem region_mapPages (m : PagedMemory) (first count index : Nat)
    (permissions : Permissions) (i : Nat) :
    (m.mapPages first count index permissions).region i = m.region i := by
  simp only [region, mapPages]

@[simp] theorem byteAt_mapPages (m : PagedMemory) (first count index : Nat)
    (permissions : Permissions) (slot : Slot) :
    (m.mapPages first count index permissions).byteAt slot = m.byteAt slot := by
  simp only [byteAt, region_mapPages]

/-- Mapping succeeds if the base and the length are whole pages and the pages exist and are
free. -/
theorem map_eq_ok {m : PagedMemory} {base index : Nat} (permissions : Permissions)
    (hbase : base % pageSize = 0) (hlength : (m.region index).size % pageSize = 0)
    (hroom : base / pageSize + (m.region index).size / pageSize ≤ pageCount)
    (hfree : ∀ i, base / pageSize ≤ i → i < base / pageSize + (m.region index).size / pageSize →
      m.page? i = none) :
    m.map base index permissions
      = .ok (m.mapPages (base / pageSize) ((m.region index).size / pageSize) index
          permissions) := by
  have hfind : (List.range' (base / pageSize) ((m.region index).size / pageSize)).find?
      (fun i => (m.page? i).isSome) = none := by
    rw [List.find?_eq_none]
    intro i hi
    obtain ⟨hlower, hupper⟩ := List.mem_range'_1.mp hi
    rw [hfree i hlower hupper]
    exact Bool.false_ne_true
  unfold map
  simp only [hbase, hlength, ne_eq, not_true_eq_false, if_false, Nat.not_lt.mpr hroom, hfind]

end PagedMemory

end CmStream
