import CmStream.Machine.Microprogram
import CmStream.Proofs.Memory.Slots

/-!
# What a microprogram can do to a machine

The few effects of a microprogram are looked at once. Memory after a run is memory before it with
some stores made, each to a slot that a page lets a program write; an access is refused only for
want of a page or a permission; and two machines that a program cannot tell apart take the same
course. Whatever instruction runs, nothing more has to be looked at.
-/

namespace CmStream

namespace Microprogram

variable {α : Type}

/-- A run changes memory by stores to slots that may be written, and by nothing else. -/
theorem exists_stores_run (p : Microprogram α) (m : Machine) :
    ∃ stores, (p.run m).2.memory = m.memory.storeAll stores
      ∧ ∀ store ∈ stores, m.memory.Grants .write store.slot := by
  induction p generalizing m with
  | done | raise => exact ⟨[], rfl, fun store hstore => by contradiction⟩
  | load access reads place next ih =>
    rw [run]
    split
    case h_1 byte _ => exact ih byte m
    case h_2 => exact ⟨[], rfl, fun store hstore => by contradiction⟩
  | store place value next ih =>
    rw [run]
    split
    case h_1 slot hlocate =>
      obtain ⟨stores, hmemory, hgrants⟩ := ih () { m with memory := m.memory.setByteAt slot value }
      refine ⟨⟨slot, value⟩ :: stores, hmemory, fun store hstore => ?_⟩
      rcases List.mem_cons.mp hstore with rfl | hstore
      · exact PagedMemory.grants_of_locate_eq_ok hlocate
      · -- Later stores have been granted by the page table behind this one, which is the same.
        exact (PagedMemory.sameShape_setByteAt _ _ _).grants_iff.mpr (hgrants store hstore)
    case h_2 => exact ⟨[], rfl, fun store hstore => by contradiction⟩
  | inspect next ih => exact ih m.registers m
  | replace registers next ih => exact ih () { m with registers := registers }

theorem sameShape_run (p : Microprogram α) (m : Machine) :
    m.memory.SameShape (p.run m).2.memory := by
  obtain ⟨stores, hmemory, -⟩ := exists_stores_run p m
  rw [hmemory]
  exact PagedMemory.sameShape_storeAll m.memory stores

/-- A fault names an address that a far pointer can name, and a page that refuses the access. -/
theorem refuses_of_run_eq_fault {p : Microprogram α} {m : Machine} {fault : Fault}
    (h : (p.run m).1 = .error (.fault fault)) :
    fault.address ≤ FarPointer.maxLinear ∧ m.memory.Refuses fault.access fault.address := by
  induction p generalizing m with
  | done => contradiction
  | raise cause own =>
    -- No program raises a fault itself.
    cases h
    contradiction
  | load access reads place next ih =>
    rw [run] at h
    split at h
    case h_1 byte _ => exact ih byte h
    case h_2 refused hread =>
      cases h
      obtain ⟨rfl, hrefuses⟩ := PagedMemory.read_eq_error hread
      exact ⟨place.linear_le, hrefuses⟩
  | store place value next ih =>
    rw [run] at h
    split at h
    case h_1 slot _ =>
      obtain ⟨haddress, hrefuses⟩ := ih () h
      exact ⟨haddress, (PagedMemory.sameShape_setByteAt _ slot value).refuses_iff.mpr hrefuses⟩
    case h_2 refused hlocate =>
      cases h
      obtain ⟨rfl, hrefuses⟩ := PagedMemory.locate_eq_error hlocate
      exact ⟨place.linear_le, hrefuses⟩
  | inspect next ih => exact ih m.registers h
  | replace registers next ih => exact ih (m := { m with registers := registers }) () h

end Microprogram

namespace PagedMemory

/-- Some page lets a program read the slot or execute it. -/
def Visible (m : PagedMemory) (slot : Slot) : Prop := m.Grants .read slot ∨ m.Grants .execute slot

/-- The same bytes in all slots that a program can see. -/
def SameVisible (m₁ m₂ : PagedMemory) : Prop :=
  ∀ slot, m₁.Visible slot → m₁.byteAt slot = m₂.byteAt slot

theorem visible_of_grants {m : PagedMemory} {access : Access} {slot : Slot}
    (reads : access ≠ .write) (h : m.Grants access slot) : m.Visible slot := by
  cases access with
  | read => exact .inl h
  | write => contradiction
  | execute => exact .inr h

theorem SameShape.visible_iff {m₁ m₂ : PagedMemory} {slot : Slot} (h : SameShape m₁ m₂) :
    m₁.Visible slot ↔ m₂.Visible slot :=
  or_congr h.grants_iff h.grants_iff

end PagedMemory

/-- Two machines that no program can tell apart: what they hold differs at most in slots that
can be neither read nor executed. -/
structure Machine.Indistinguishable (m₁ m₂ : Machine) : Prop where
  registers : m₁.registers = m₂.registers
  shape : m₁.memory.SameShape m₂.memory
  visible : m₁.memory.SameVisible m₂.memory

namespace Machine.Indistinguishable

variable {m₁ m₂ : Machine}

/-- The same store on both sides, wherever it goes. -/
theorem setByteAt (h : Indistinguishable m₁ m₂) (slot : Slot) (value : Byte) :
    Indistinguishable { m₁ with memory := m₁.memory.setByteAt slot value }
      { m₂ with memory := m₂.memory.setByteAt slot value } := by
  refine ⟨h.registers, h.shape.setByteAt slot value, fun seen hseen => ?_⟩
  have hbefore : m₁.memory.Visible seen :=
    (PagedMemory.sameShape_setByteAt _ _ _).visible_iff.mpr hseen
  exact PagedMemory.byteAt_setByteAt_congr h.shape slot value (h.visible seen hbefore)

theorem read_eq (h : Indistinguishable m₁ m₂) {access : Access} (reads : access ≠ .write)
    (address : Nat) : m₁.memory.read access address = m₂.memory.read access address := by
  unfold PagedMemory.read
  rw [← h.shape.locate_eq]
  cases hlocate : m₁.memory.locate access address with
  | error fault => rfl
  | ok slot =>
    have hvisible := PagedMemory.visible_of_grants reads
      (PagedMemory.grants_of_locate_eq_ok hlocate)
    exact congrArg Except.ok (h.visible slot hvisible)

end Machine.Indistinguishable

namespace Microprogram

variable {α : Type}

/-- A program ends alike on two machines that it cannot tell apart, makes the same stores on both
and leaves two machines that cannot be told apart either. -/
theorem run_indistinguishable (p : Microprogram α) {m₁ m₂ : Machine}
    (h : m₁.Indistinguishable m₂) :
    (p.run m₁).1 = (p.run m₂).1 ∧ (p.run m₁).2.Indistinguishable (p.run m₂).2
      ∧ ∃ stores, (p.run m₁).2.memory = m₁.memory.storeAll stores
        ∧ (p.run m₂).2.memory = m₂.memory.storeAll stores := by
  induction p generalizing m₁ m₂ with
  | done | raise => exact ⟨rfl, h, [], rfl, rfl⟩
  | load access reads place next ih =>
    rw [run, run, ← h.read_eq reads]
    split
    case h_1 byte _ => exact ih byte h
    case h_2 => exact ⟨rfl, h, [], rfl, rfl⟩
  | store place value next ih =>
    -- The page table decides where the store goes, hidden or not.
    rw [run, run, ← h.shape.locate_eq]
    split
    case h_1 slot _ =>
      obtain ⟨hending, hafter, stores, hmemory₁, hmemory₂⟩ := ih () (h.setByteAt slot value)
      exact ⟨hending, hafter, ⟨slot, value⟩ :: stores, hmemory₁, hmemory₂⟩
    case h_2 => exact ⟨rfl, h, [], rfl, rfl⟩
  | inspect next ih =>
    rw [run, run, ← h.registers]
    exact ih m₁.registers h
  | replace registers next ih =>
    have hreplaced : Machine.Indistinguishable { m₁ with registers := registers }
        { m₂ with registers := registers } := ⟨rfl, h.shape, h.visible⟩
    exact ih () hreplaced

end Microprogram

end CmStream
