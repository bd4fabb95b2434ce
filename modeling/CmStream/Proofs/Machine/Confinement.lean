import CmStream.Proofs.Machine.Effects
import CmStream.Proofs.Machine.Iteration
import CmStream.Proofs.Memory.Mapping

/-!
# Programs are confined to their pages

However long a machine goes on making steps, the page table, the number of regions and their
lengths stay as they were, and so does every byte that no page lets a program write. A fault is
always a refused access.
-/

namespace CmStream

namespace Machine

variable {m : Machine}

theorem step_snd (m : Machine) : m.step.2 = (Instruction.fetchAndPerform.run m).2 := by
  unfold step
  split
  case h_1 heq => rw [heq]
  case h_2 heq => rw [heq]
  case h_3 heq => rw [heq]

theorem sameShape_after (n : Nat) (m : Machine) : m.memory.SameShape (m.after n).memory := by
  induction n generalizing m with
  | zero => exact PagedMemory.SameShape.refl m.memory
  | succ n ih =>
    have hstep : m.memory.SameShape m.step.2.memory := by
      rw [step_snd]
      exact Microprogram.sameShape_run _ m
    exact hstep.trans (ih m.step.2)

/-- A step leaves a byte that no page lets a program write. -/
theorem byteAt_step {slot : Slot} (h : ¬ m.memory.Grants .write slot) :
    m.step.2.memory.byteAt slot = m.memory.byteAt slot := by
  obtain ⟨stores, hmemory, hgrants⟩ := Microprogram.exists_stores_run Instruction.fetchAndPerform m
  rw [step_snd, hmemory]
  apply PagedMemory.byteAt_storeAll_of_notMem
  rintro store hstore rfl
  exact h (hgrants store hstore)

theorem byteAt_after {slot : Slot} (n : Nat) (h : ¬ m.memory.Grants .write slot) :
    (m.after n).memory.byteAt slot = m.memory.byteAt slot := by
  induction n with
  | zero => rfl
  | succ n ih =>
    -- What may be written is read off the page table, and no step has changed that.
    have hstill : ¬ (m.after n).memory.Grants .write slot :=
      fun hgrants => h ((sameShape_after n m).grants_iff.mpr hgrants)
    rw [after_succ, byteAt_step hstill, ih]

/-- A step that ends in a fault has named an access that the memory refuses. -/
theorem refuses_of_step_eq_fault {place : FarPointer} {fault : Fault}
    (h : m.step.1 = .stopped (.gaveUp place (.fault fault))) :
    fault.address ≤ FarPointer.maxLinear ∧ m.memory.Refuses fault.access fault.address := by
  obtain ⟨cause, hstop, hrun⟩ := exists_cause_of_stopped h
  cases hstop
  exact Microprogram.refuses_of_run_eq_fault hrun

/-- Confinement: after any number of steps, stops among them, the shape of memory is the one at
the beginning, every byte without a page that is valid and may be written is the one at the
beginning, and a fault that the next step reports names a refused access. -/
theorem confined_after (m : Machine) (n : Nat) :
    m.memory.SameShape (m.after n).memory
      ∧ (∀ slot, ¬ m.memory.Grants .write slot →
          (m.after n).memory.byteAt slot = m.memory.byteAt slot)
      ∧ ∀ place fault, (m.after n).step.1 = .stopped (.gaveUp place (.fault fault)) →
          fault.address ≤ FarPointer.maxLinear
            ∧ m.memory.Refuses fault.access fault.address := by
  refine ⟨sameShape_after n m, fun slot hslot => byteAt_after n hslot, ?_⟩
  intro place fault hfault
  obtain ⟨haddress, hrefuses⟩ := refuses_of_step_eq_fault hfault
  exact ⟨haddress, (sameShape_after n m).refuses_iff.mpr hrefuses⟩

/-- A machine whose only page may be read and executed; it is about to store a byte there. -/
def sealed : Machine :=
  ⟨Registers.initial, ((PagedMemory.empty.allocate pageSize).poke 0 0 [0xaa]).mapPages 0 1 0
    ⟨true, false, true, true⟩⟩

theorem not_grants_write_sealed (slot : Slot) : ¬ sealed.memory.Grants .write slot := by
  rintro ⟨index, page, hpage, -, hgrants⟩
  rw [sealed, PagedMemory.page?_mapPages] at hpage
  split at hpage
  case isTrue =>
    cases hpage
    exact Bool.false_ne_true hgrants
  case isFalse =>
    rw [show ((PagedMemory.empty.allocate pageSize).poke 0 0 [0xaa]).page? index = none from
      PagedMemory.page?_empty index] at hpage
    contradiction

/-- The store is refused and the byte stays, however often the step is tried. -/
theorem confined_sealed :
    ¬ sealed.memory.Grants .write ⟨0, 0⟩
      ∧ (sealed.after 2).memory.byteAt ⟨0, 0⟩ = sealed.memory.byteAt ⟨0, 0⟩
      ∧ (sealed.after 0).step.1 = .stopped (.gaveUp ⟨0, 0⟩ (.fault ⟨0, .write⟩))
      ∧ sealed.memory.Refuses .write 0 := by
  have hsealed := not_grants_write_sealed ⟨0, 0⟩
  have hfault : (sealed.after 0).step.1 = .stopped (.gaveUp ⟨0, 0⟩ (.fault ⟨0, .write⟩)) := by
    decide +kernel
  obtain ⟨-, hkept, -⟩ := confined_after sealed 2
  obtain ⟨-, -, hfaults⟩ := confined_after sealed 0
  exact ⟨hsealed, hkept ⟨0, 0⟩ hsealed, hfault, (hfaults _ _ hfault).2⟩

end Machine

end CmStream
