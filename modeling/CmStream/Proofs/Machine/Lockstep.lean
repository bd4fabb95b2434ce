import CmStream.Proofs.Machine.Confinement

/-!
# Programs cannot tell what they cannot see

Two machines that differ only in bytes that can be neither read nor executed make the same steps.
Every step of the two comes to the same and makes the same stores, so hidden bytes reach nothing
that a program can see; what happens to them is that they stay or are overwritten on both sides
alike.
-/

namespace CmStream

namespace PagedMemory

/-- What has become of a byte when some stores have been made to two memories: both have kept
their own, or both hold what was stored last. -/
theorem byteAt_storeAll_or {m₁ m₂ : PagedMemory} (hshape : m₁.SameShape m₂)
    (stores : List Store) (slot : Slot) :
    ((∀ store ∈ stores, store.slot ≠ slot)
        ∧ (m₁.storeAll stores).byteAt slot = m₁.byteAt slot
        ∧ (m₂.storeAll stores).byteAt slot = m₂.byteAt slot)
      ∨ ((∃ store ∈ stores, store.slot = slot)
        ∧ (m₁.storeAll stores).byteAt slot = (m₂.storeAll stores).byteAt slot) := by
  by_cases hstored : ∃ store ∈ stores, store.slot = slot
  · exact .inr ⟨hstored, byteAt_storeAll_congr hshape hstored⟩
  · have hkept : ∀ store ∈ stores, store.slot ≠ slot := by
      intro store hmem hslot
      exact hstored ⟨store, hmem, hslot⟩
    exact .inl ⟨hkept, byteAt_storeAll_of_notMem hkept, byteAt_storeAll_of_notMem hkept⟩

end PagedMemory

namespace Machine

variable {m₁ m₂ : Machine}

theorem step_fst_congr (hregisters : m₁.registers = m₂.registers)
    (hrun : (Instruction.fetchAndPerform.run m₁).1 = (Instruction.fetchAndPerform.run m₂).1) :
    m₁.step.1 = m₂.step.1 := by
  cases h₁ : Instruction.fetchAndPerform.run m₁ with
  | mk result after₁ =>
    cases h₂ : Instruction.fetchAndPerform.run m₂ with
    | mk result' after₂ =>
      rw [h₁, h₂] at hrun
      cases hrun
      rw [step, step, h₁, h₂, hregisters]
      cases result with
      | ok halts => cases halts <;> rfl
      | error cause => rfl

/-- One step on each side. -/
theorem step_indistinguishable (h : m₁.Indistinguishable m₂) :
    m₁.step.1 = m₂.step.1 ∧ m₁.step.2.Indistinguishable m₂.step.2
      ∧ ∃ stores, m₁.step.2.memory = m₁.memory.storeAll stores
        ∧ m₂.step.2.memory = m₂.memory.storeAll stores := by
  obtain ⟨hrun, hafter, hstores⟩ :=
    Microprogram.run_indistinguishable Instruction.fetchAndPerform h
  rw [step_snd, step_snd]
  exact ⟨step_fst_congr h.registers hrun, hafter, hstores⟩

/-- Any number of steps on each side. -/
theorem after_indistinguishable (n : Nat) (h : m₁.Indistinguishable m₂) :
    (m₁.after n).Indistinguishable (m₂.after n)
      ∧ ∃ stores, (m₁.after n).memory = m₁.memory.storeAll stores
        ∧ (m₂.after n).memory = m₂.memory.storeAll stores := by
  induction n with
  | zero => exact ⟨h, [], rfl, rfl⟩
  | succ n ih =>
    obtain ⟨hbefore, stores, hmemory₁, hmemory₂⟩ := ih
    obtain ⟨-, hafter, more, hmore₁, hmore₂⟩ := step_indistinguishable hbefore
    rw [after_succ, after_succ]
    refine ⟨hafter, stores ++ more, ?_, ?_⟩
    · rw [hmore₁, hmemory₁, PagedMemory.storeAll_append]
    · rw [hmore₂, hmemory₂, PagedMemory.storeAll_append]

/-- Non-interference: two machines that differ only in hidden bytes run in lockstep. Every step
leads to the same, the registers and the visible bytes stay equal, and the same stores are made
to both, so a hidden byte has stayed as it was on either side or has become the same on both. -/
theorem lockstep (h : m₁.Indistinguishable m₂) (n : Nat) :
    (m₁.after n).step.1 = (m₂.after n).step.1
      ∧ (m₁.after n).registers = (m₂.after n).registers
      ∧ (∀ slot, m₁.memory.Visible slot →
          (m₁.after n).memory.byteAt slot = (m₂.after n).memory.byteAt slot)
      ∧ ∃ stores : List PagedMemory.Store,
          (m₁.after n).memory = m₁.memory.storeAll stores
            ∧ (m₂.after n).memory = m₂.memory.storeAll stores
            ∧ ∀ slot, ¬ m₁.memory.Visible slot →
              ((∀ store ∈ stores, store.slot ≠ slot)
                  ∧ (m₁.after n).memory.byteAt slot = m₁.memory.byteAt slot
                  ∧ (m₂.after n).memory.byteAt slot = m₂.memory.byteAt slot)
                ∨ ((∃ store ∈ stores, store.slot = slot)
                  ∧ (m₁.after n).memory.byteAt slot = (m₂.after n).memory.byteAt slot) := by
  obtain ⟨hafter, stores, hmemory₁, hmemory₂⟩ := after_indistinguishable n h
  refine ⟨(step_indistinguishable hafter).1, hafter.registers, ?_, stores, hmemory₁, hmemory₂, ?_⟩
  · intro slot hvisible
    exact hafter.visible slot ((sameShape_after n m₁).visible_iff.mp hvisible)
  · intro slot _
    rw [hmemory₁, hmemory₂]
    exact PagedMemory.byteAt_storeAll_or h.shape stores slot

/-- A machine with a page that can only be written, behind which the given bytes are hidden. Its
program is `mov [0x1000], al` and `hlt`: it stores to the first of them. -/
def withHidden (hidden : List Byte) : Machine :=
  let filled := (((PagedMemory.empty.allocate pageSize).allocate pageSize).poke 0 0
    [0xa2, 0x00, 0x10, 0xf4]).poke 1 0 hidden
  ⟨Registers.initial, (filled.mapPages 0 1 0 Permissions.all).mapPages 1 1 1
    ⟨false, true, false, true⟩⟩

theorem indistinguishable_withHidden (secret secret' : List Byte) :
    (withHidden secret).Indistinguishable (withHidden secret') := by
  have hshape : (withHidden secret).memory.SameShape (withHidden secret').memory := by
    refine ⟨rfl, ?_, fun index => ?_⟩
    · exact Array.size_modify.trans Array.size_modify.symm
    · rw [withHidden, withHidden, PagedMemory.region_mapPages, PagedMemory.region_mapPages,
        PagedMemory.region_mapPages, PagedMemory.region_mapPages,
        ← (PagedMemory.sameShape_poke _ 1 0 secret).length,
        ← (PagedMemory.sameShape_poke _ 1 0 secret').length]
  refine ⟨rfl, hshape, ?_⟩
  rintro slot hvisible
  -- What can be seen lies in the first region, which holds the same on both sides.
  have hregion : slot.region = 0 := by
    obtain ⟨access, haccess, index, page, hpage, ⟨hshown, -⟩, hgrants⟩ :
        ∃ access, access ≠ .write ∧ (withHidden secret).memory.Grants access slot :=
      hvisible.elim (fun h => ⟨.read, by decide, h⟩) (fun h => ⟨.execute, by decide, h⟩)
    rw [withHidden, PagedMemory.page?_mapPages, PagedMemory.page?_mapPages] at hpage
    split at hpage
    case isTrue =>
      cases hpage
      cases access <;> contradiction
    case isFalse =>
      split at hpage
      case isTrue =>
        cases hpage
        exact hshown.symm
      case isFalse =>
        have hnone := PagedMemory.page?_empty index
        exact absurd (hnone.symm.trans hpage) (Option.some_ne_none page).symm
  have houtside : slot.region = 1 → slot.offset < 0 ∨ 0 + secret.length ≤ slot.offset := by
    omega
  have houtside' : slot.region = 1 → slot.offset < 0 ∨ 0 + secret'.length ≤ slot.offset := by
    omega
  rw [withHidden, withHidden, PagedMemory.byteAt_mapPages, PagedMemory.byteAt_mapPages,
    PagedMemory.byteAt_mapPages, PagedMemory.byteAt_mapPages,
    PagedMemory.byteAt_poke_of_outside houtside, PagedMemory.byteAt_poke_of_outside houtside']

theorem lockstep_withHidden :
    (withHidden [7, 8]).Indistinguishable (withHidden [9, 10])
      ∧ ((withHidden [7, 8]).after 1).step.1 = ((withHidden [9, 10]).after 1).step.1
      ∧ ((withHidden [7, 8]).after 1).registers = ((withHidden [9, 10]).after 1).registers := by
  have hsame := indistinguishable_withHidden [7, 8] [9, 10]
  obtain ⟨houtcome, hregisters, -⟩ := lockstep hsame 1
  exact ⟨hsame, houtcome, hregisters⟩

end Machine

end CmStream
