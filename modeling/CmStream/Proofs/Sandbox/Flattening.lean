import CmStream.Machine.Flat
import CmStream.Proofs.Sandbox.Reentry

/-!
# The memory of a sandbox is flat

With three regions mapped without a gap and with all permissions, pages come to nothing: an address
counts the bytes of the regions in a row, and an access is refused only behind the last of them.
The machine makes the same steps with such a row of bytes for its memory, whatever it runs and for
however long.
-/

namespace CmStream

/-- The bytes of three regions in a row. -/
def PagedMemory.flatten (m : PagedMemory) : FlatMemory :=
  Vector.ofFn fun address =>
    m.byteAt ⟨address / Sandbox.segmentSize, address % Sandbox.segmentSize⟩

def Machine.flatten (m : Machine) : FlatMachine := ⟨m.registers, m.memory.flatten⟩

namespace PagedMemory

open Sandbox

variable {m : PagedMemory} {address : Nat}

theorem getElem_flatten (m : PagedMemory) (haddress : address < flatSize) :
    m.flatten[address] = m.byteAt ⟨address / segmentSize, address % segmentSize⟩ := by
  unfold flatten
  rw [Vector.getElem_ofFn]

/-- A store to the slot of an address changes the byte that the address counts and no other. -/
theorem flatten_setByteAt (hlaid : LaidOut m) (haddress : address < flatSize) (value : Byte) :
    (m.setByteAt ⟨address / segmentSize, address % segmentSize⟩ value).flatten
      = m.flatten.set address value haddress := by
  apply Vector.ext
  intro other hother
  rw [getElem_flatten, Vector.getElem_set, getElem_flatten]
  by_cases hsame : address = other
  · have hregion : address / segmentSize < 3 := by
      simp only [flatSize, segmentSize] at haddress ⊢
      omega
    have hoffset : address % segmentSize < segmentSize := Nat.mod_lt _ (by decide)
    subst hsame
    rw [if_pos rfl, byteAt_setByteAt_self, hlaid.length _ hregion, if_pos hoffset]
  · -- Segment and offset determine the address, so another address has another slot.
    have hslot : Slot.mk (address / segmentSize) (address % segmentSize)
        ≠ ⟨other / segmentSize, other % segmentSize⟩ := by
      intro hslot
      obtain ⟨hregion, hoffset⟩ := Slot.mk.inj hslot
      apply hsame
      rw [← Nat.div_add_mod address segmentSize, hregion, hoffset, Nat.div_add_mod]
    rw [if_neg hsame, byteAt_setByteAt_of_ne _ _ hslot]

theorem read_eq_flatten (hlaid : LaidOut m) (access : Access) (address : Nat) :
    m.read access address = m.flatten.read access address := by
  unfold FlatMemory.read
  by_cases haddress : address < flatSize
  · rw [dif_pos haddress, hlaid.read_eq_ok access haddress, getElem_flatten]
  · unfold read
    rw [dif_neg haddress, hlaid.locate_eq_error access (Nat.not_lt.mp haddress)]
    rfl

theorem write_eq_flatten (hlaid : LaidOut m) (address : Nat) (value : Byte) :
    (m.write address value).map flatten = m.flatten.write address value := by
  unfold write FlatMemory.write
  by_cases haddress : address < flatSize
  · rw [dif_pos haddress, hlaid.locate_eq_ok .write haddress, ← flatten_setByteAt hlaid]
    rfl
  · rw [dif_neg haddress, hlaid.locate_eq_error .write (Nat.not_lt.mp haddress)]
    rfl

theorem getElem_toList_region {index offset : Nat}
    (h : offset < (m.region index).toList.length) :
    (m.region index).toList[offset] = m.byteAt ⟨index, offset⟩ := by
  rw [Array.length_toList] at h
  rw [Array.getElem_toList, byteAt, Array.getD_eq_getD_getElem?, Array.getElem?_eq_getElem h]
  rfl

/-- The regions follow one another in the order of their numbers. -/
theorem toList_flatten (hlaid : LaidOut m) :
    m.flatten.toList = (m.region codeRegion).toList ++ (m.region inputRegion).toList
      ++ (m.region outputRegion).toList := by
  have hcode : (m.region codeRegion).toList.length = 0x10000 := hlaid.length _ (by decide)
  have hinput : (m.region inputRegion).toList.length = 0x10000 := hlaid.length _ (by decide)
  have houtput : (m.region outputRegion).toList.length = 0x10000 := hlaid.length _ (by decide)
  apply List.ext_getElem
  · rw [Vector.length_toList, List.length_append, List.length_append, hcode, hinput, houtput]
    rfl
  · intro address haddress hrow
    rw [Vector.length_toList] at haddress
    have hplace : ∀ index offset, address = index * 0x10000 + offset → offset < 0x10000 →
        m.byteAt ⟨address / segmentSize, address % segmentSize⟩ = m.byteAt ⟨index, offset⟩ := by
      intro index offset hsum hoffset
      have hregion : address / segmentSize = index := by
        simp only [segmentSize]
        omega
      have hbyte : address % segmentSize = offset := by
        simp only [segmentSize]
        omega
      rw [hregion, hbyte]
    rw [Vector.getElem_toList, getElem_flatten m haddress]
    simp only [List.getElem_append, List.length_append, hcode, hinput, getElem_toList_region]
    simp only [flatSize] at haddress
    split
    case isTrue hfront =>
      split
      case isTrue hfirst => exact hplace 0 address (by omega) hfirst
      case isFalse hsecond => exact hplace 1 (address - 0x10000) (by omega) (by omega)
    case isFalse hthird =>
      exact hplace 2 (address - (0x10000 + 0x10000)) (by omega) (by omega)

end PagedMemory

namespace Microprogram

open Sandbox PagedMemory

/-- A program comes to the same on flat memory. -/
theorem runFlat_flatten {α : Type} (p : Microprogram α) {m : Machine} (hlaid : LaidOut m.memory) :
    p.runFlat m.flatten = ((p.run m).1, (p.run m).2.flatten) := by
  induction p generalizing m with
  | done | raise => rfl
  | load access reads place next ih =>
    have hread := read_eq_flatten hlaid access place.linear
    unfold runFlat run
    rw [show m.flatten.memory.read access place.linear = _ from hread.symm]
    cases m.memory.read access place.linear with
    | error fault => rfl
    | ok byte => exact ih byte hlaid
  | store place value next ih =>
    have hwrite := write_eq_flatten hlaid place.linear value
    unfold runFlat run
    rw [show m.flatten.memory.write place.linear value = _ from hwrite.symm]
    unfold PagedMemory.write
    cases m.memory.locate .write place.linear with
    | error fault => rfl
    | ok slot =>
      have hstored : LaidOut (m.memory.setByteAt slot value) :=
        hlaid.of_sameShape (sameShape_setByteAt m.memory slot value)
      exact ih () (m := { m with memory := m.memory.setByteAt slot value }) hstored
  | inspect next ih => exact ih m.registers hlaid
  | replace registers next ih => exact ih () (m := { m with registers := registers }) hlaid

end Microprogram

namespace Machine

open Sandbox

variable {m : Machine}

theorem step_flatten (hlaid : LaidOut m.memory) :
    m.flatten.step = (m.step.1, m.step.2.flatten) := by
  unfold FlatMachine.step step
  rw [Microprogram.runFlat_flatten _ hlaid]
  rcases Instruction.fetchAndPerform.run m with ⟨cause | halts, after⟩
  · rfl
  · cases halts <;> rfl

theorem after_flatten (n : Nat) (hlaid : LaidOut m.memory) :
    m.flatten.after n = (m.after n).flatten := by
  induction n generalizing m with
  | zero => rfl
  | succ n ih =>
    have hstep : LaidOut m.step.2.memory := hlaid.of_sameShape (sameShape_after 1 m)
    unfold FlatMachine.after after
    rw [step_flatten hlaid]
    exact ih hstep

end Machine

namespace Sandbox

variable {limit : Option Nat} {image : Image} {s : Sandbox} {m : Machine}

/-- What accesses come to at a machine whose memory is a row of bytes: each of them leads to the
byte that its address counts, unless it lies behind the end. -/
structure ActsFlat (m : Machine) : Prop where
  contents : m.flatten.memory.toList = (m.memory.region codeRegion).toList
    ++ (m.memory.region inputRegion).toList ++ (m.memory.region outputRegion).toList
  read : ∀ access address, (h : address < 0x30000) →
    m.memory.read access address = .ok m.flatten.memory[address]
  write : ∀ address value, (h : address < 0x30000) →
    ∃ stored, m.memory.write address value = .ok stored
      ∧ stored.flatten = m.flatten.memory.set address value h
  refused : ∀ access address value, 0x30000 ≤ address →
    m.memory.read access address = .error ⟨address, access⟩
      ∧ m.memory.write address value = .error ⟨address, .write⟩

theorem LaidOut.actsFlat (hlaid : LaidOut m.memory) : ActsFlat m where
  contents := PagedMemory.toList_flatten hlaid
  read access address haddress := by
    rw [PagedMemory.read_eq_flatten hlaid, FlatMemory.read]
    exact dif_pos haddress
  write address value haddress := by
    refine ⟨_, ?_, PagedMemory.flatten_setByteAt hlaid haddress value⟩
    unfold PagedMemory.write
    rw [hlaid.locate_eq_ok .write haddress]
    rfl
  refused access address value haddress := by
    unfold PagedMemory.read PagedMemory.write
    rw [hlaid.locate_eq_error access haddress, hlaid.locate_eq_error .write haddress]
    exact ⟨rfl, rfl⟩

/-- A step in a sandbox is refused only what lies behind the regions. -/
theorem LaidOut.le_address_of_fault (hlaid : LaidOut m.memory) {place : FarPointer}
    {fault : Fault} (h : m.step.1 = .stopped (.gaveUp place (.fault fault))) :
    0x30000 ≤ fault.address ∧ fault.address ≤ 0x10ffef := by
  obtain ⟨hmax, hrefuses⟩ := Machine.refuses_of_step_eq_fault h
  refine ⟨Nat.le_of_not_lt fun hbelow => ?_, hmax⟩
  -- Every page in front of the end is valid and has all its bits.
  have hindex : fault.address / pageSize < 3 * segmentPages := by
    simp only [pageSize, segmentPages]
    omega
  have hpage := hlaid.page (fault.address / pageSize)
  rw [layoutPage, if_pos hindex] at hpage
  rcases hrefuses _ hpage with hvalid | hbit
  · cases hvalid
  · cases haccess : fault.access <;> rw [haccess] at hbit <;> cases hbit

/-- The memory of a sandbox is a row of bytes. Behind calls on any blocks, and after any number of
steps of the call on the next, an access leads to the byte that its address counts and a refusal
names an address behind the last of them; and the machine with the row of bytes for its memory makes
the same steps. -/
theorem calls_run_flat (hreached : Reached limit image s) :
    ActsFlat s.machine
      ∧ ∀ block header, block.header = .ok header →
        ∃ first, s.prepare block header = (.ok (), first)
          ∧ (∀ n, ActsFlat (first.after n)
              ∧ first.flatten.after n = (first.after n).flatten
              ∧ (first.flatten.after n).step
                = ((first.after n).step.1, (first.after n).step.2.flatten)
              ∧ ∀ place fault,
                  (first.after n).step.1 = .stopped (.gaveUp place (.fault fault)) →
                  0x30000 ≤ fault.address ∧ fault.address ≤ 0x10ffef)
          ∧ ∀ result after, s.callWith limit block = some (.ok result, after) →
              (∃ n, after.machine = first.after n)
                ∧ ∀ place fault, result.stop = some (.gaveUp place (.fault fault)) →
                  0x30000 ≤ fault.address ∧ fault.address ≤ 0x10ffef := by
  obtain ⟨hlaid, -⟩ := hreached.laidOut
  refine ⟨hlaid.actsFlat, fun block header hheader => ?_⟩
  have hentered := laidOut_entered hlaid block header
  refine ⟨s.entered block header, prepare_eq hlaid block header, fun n => ?_, ?_⟩
  · have hafter : LaidOut ((s.entered block header).after n).memory :=
      hentered.of_sameShape (Machine.sameShape_after n _)
    refine ⟨hafter.actsFlat, Machine.after_flatten n hentered, ?_, fun place fault =>
      hafter.le_address_of_fault⟩
    rw [Machine.after_flatten n hentered, Machine.step_flatten hafter]
  · intro result after hcall
    rw [callWith_of_header hlaid limit hheader] at hcall
    obtain ⟨⟨ending, last⟩, hrun, hcalled⟩ := Option.map_eq_some_iff.mp hcall
    cases hcalled
    have hends := Machine.runWith_eq_some_iff.mp hrun
    refine ⟨hends.exists_after, fun place fault hstop => ?_⟩
    cases hends with
    | halted => cases hstop
    | limited => cases hstop
    | @stopped _ k _ granted continues stops =>
      cases hstop
      have hlast : LaidOut ((s.entered block header).after k).memory :=
        hentered.of_sameShape (Machine.sameShape_after k _)
      exact hlast.le_address_of_fault stops

/-- Behind a call that has been cut short, the last byte of the row can be executed and the address
behind it cannot, and three steps of the next call are those of the machine with the row. -/
theorem calls_run_flat_behind_cut :
    Reached (some 5) counter cut
      ∧ (∃ byte, cut.machine.memory.read .execute 0x2ffff = .ok byte)
      ∧ cut.machine.memory.read .execute 0x30000 = .error ⟨0x30000, .execute⟩
      ∧ ∃ first, cut.prepare counted ⟨0, 7⟩ = (.ok (), first)
          ∧ first.flatten.after 3 = (first.after 3).flatten := by
  have hreached : Reached (some 5) counter cut :=
    reached_behind (load_eq_ok (by decide)) 5 counted
  obtain ⟨hflat, hcalls⟩ := calls_run_flat hreached
  obtain ⟨first, hprepare, hsteps, -⟩ := hcalls counted ⟨0, 7⟩ rfl
  refine ⟨hreached, ⟨_, hflat.read .execute 0x2ffff (by decide)⟩, ?_, first, hprepare, ?_⟩
  · exact (hflat.refused .execute 0x30000 0 (by decide)).1
  · exact (hsteps 3).2.1

end Sandbox

end CmStream
