import CmStream.Machine.Storing
import CmStream.Proofs.Machine.Sight
import CmStream.Proofs.Memory.Addresses

/-!
# Where programs store

Memory changes by granted stores alone, so it is enough to know where these go. Most programs say
so by themselves, whatever they load and whatever the registers are: `Microprogram.StoresOnly`. What
is pushed goes where the stack pointer is by then, so a program that pushes is followed from one
push to the next: `Microprogram.Descends`.
-/

namespace CmStream

open Machine

/-- The bytes of the operand, if it lies in memory, are at some of the places. -/
def Operand.Within (operand : Operand) (width : Width) (places : FarPointer → Prop) : Prop :=
  ∀ place, operand = .memory place → ∀ reached ∈ place.following width.size.toNat, places reached

namespace Microprogram

variable {α β : Type} {p : Microprogram α} {f : α → Microprogram β} {m : Machine}
  {places places' : FarPointer → Prop}

/-! ## Stores that are made -/

/-- Every store that changes memory has been granted, at an address that the slot backs. -/
theorem exists_granted_stores (p : Microprogram α) (m : Machine) :
    ∃ stores, (p.run m).2.memory = m.memory.storeAll stores
      ∧ ∀ store ∈ stores, ∃ granted ∈ p.accesses m, granted.access = .write
        ∧ m.memory.locate .write granted.place.linear = .ok store.slot := by
  induction p generalizing m with
  | done | raise => exact ⟨[], rfl, fun store hstore => by contradiction⟩
  | load access reads place next ih =>
    simp only [run, accesses]
    cases m.memory.read access place.linear with
    | ok byte =>
      obtain ⟨stores, hmemory, hgranted⟩ := ih byte m
      refine ⟨stores, hmemory, fun store hstore => ?_⟩
      obtain ⟨granted, hmade, hwrite⟩ := hgranted store hstore
      exact ⟨granted, List.mem_cons_of_mem _ hmade, hwrite⟩
    | error fault => exact ⟨[], rfl, fun store hstore => by contradiction⟩
  | store place value next ih =>
    simp only [run, accesses]
    cases hlocate : m.memory.locate .write place.linear with
    | ok slot =>
      obtain ⟨stores, hmemory, hgranted⟩ :=
        ih () { m with memory := m.memory.setByteAt slot value }
      refine ⟨⟨slot, value⟩ :: stores, hmemory, fun store hstore => ?_⟩
      rcases List.mem_cons.mp hstore with rfl | hstore
      · exact ⟨⟨.write, place, value⟩, List.mem_cons_self, rfl, hlocate⟩
      · obtain ⟨granted, hmade, hwrite, hfound⟩ := hgranted store hstore
        rw [← (PagedMemory.sameShape_setByteAt _ _ _).locate_eq] at hfound
        exact ⟨granted, List.mem_cons_of_mem _ hmade, hwrite, hfound⟩
    | error fault => exact ⟨[], rfl, fun store hstore => by contradiction⟩
  | inspect next ih => exact ih m.registers m
  | replace registers next ih => exact ih () { m with registers := registers }

/-- The stores that are made go to some places. -/
def StoresIn (p : Microprogram α) (m : Machine) (places : FarPointer → Prop) : Prop :=
  ∀ granted ∈ p.accesses m, granted.access = .write → places granted.place

namespace StoresIn

theorem mono (h : p.StoresIn m places) (hmono : ∀ place, places place → places' place) :
    p.StoresIn m places' :=
  fun granted hmade hwrite => hmono _ (h granted hmade hwrite)

theorem bind (h : p.StoresIn m places) (hrest : ∀ value after, p.run m = (.ok value, after) →
    (f value).StoresIn after places) : (p >>= f).StoresIn m places := by
  intro granted hmade hwrite
  rw [accesses_bind] at hmade
  rcases List.mem_append.mp hmade with hfirst | hsecond
  · exact h granted hfirst hwrite
  · split at hsecond
    case h_1 value after hrun => exact hrest value after hrun granted hsecond hwrite
    case h_2 => cases hsecond

/-- A byte that has changed backs one of the places. -/
theorem exists_backing (h : p.StoresIn m places) {slot : Slot}
    (hchanged : (p.run m).2.memory.byteAt slot ≠ m.memory.byteAt slot) :
    ∃ place, places place ∧ m.memory.backing? place.linear = some slot := by
  obtain ⟨stores, hmemory, hgranted⟩ := exists_granted_stores p m
  rw [hmemory] at hchanged
  have hstored : ∃ store ∈ stores, store.slot = slot :=
    Classical.byContradiction fun hnone => hchanged <|
      PagedMemory.byteAt_storeAll_of_notMem fun store hstore hslot =>
        hnone ⟨store, hstore, hslot⟩
  obtain ⟨store, hstore, rfl⟩ := hstored
  obtain ⟨granted, hmade, hwrite, hlocate⟩ := hgranted store hstore
  exact ⟨granted.place, h granted hmade hwrite, PagedMemory.backing?_of_locate hlocate⟩

/-- Without a place to go there are no stores. -/
theorem memory_eq (h : p.StoresIn m places) (hnone : ∀ place, ¬ places place) :
    (p.run m).2.memory = m.memory := by
  obtain ⟨stores, hmemory, hgranted⟩ := exists_granted_stores p m
  cases stores with
  | nil => exact hmemory
  | cons store stores =>
    obtain ⟨granted, hmade, hwrite, -⟩ := hgranted store List.mem_cons_self
    exact absurd (h granted hmade hwrite) (hnone _)

end StoresIn

/-! ## Programs with known destinations -/

/-- Whatever the program loads, it stores to some places only. -/
def StoresOnly (places : FarPointer → Prop) : Microprogram α → Prop
  | done _ => True
  | raise _ _ => True
  | load _ _ _ next => ∀ byte, (next byte).StoresOnly places
  | store place _ next => places place ∧ (next ()).StoresOnly places
  | inspect next => ∀ r, (next r).StoresOnly places
  | replace _ next => (next ()).StoresOnly places

namespace StoresOnly

theorem storesIn (h : p.StoresOnly places) (m : Machine) : p.StoresIn m places := by
  induction p generalizing m with
  | done | raise =>
    intro granted hmade
    cases hmade
  | load access reads place next ih =>
    intro granted hmade hwrite
    rw [accesses] at hmade
    split at hmade
    case h_1 byte _ =>
      rcases List.mem_cons.mp hmade with rfl | hmade
      · exact absurd hwrite reads
      · exact ih byte (h byte) m granted hmade hwrite
    case h_2 => cases hmade
  | store place value next ih =>
    intro granted hmade hwrite
    rw [accesses] at hmade
    split at hmade
    case h_1 =>
      rcases List.mem_cons.mp hmade with rfl | hmade
      · exact h.1
      · exact ih () h.2 _ granted hmade hwrite
    case h_2 => cases hmade
  | inspect next ih => exact ih m.registers (h m.registers) m
  | replace registers next ih => exact ih () h { m with registers := registers }

theorem pure (value : α) : StoresOnly places (Pure.pure value : Microprogram α) := trivial

theorem giveUp (cause : Cause) (own : cause.isFault = false) :
    StoresOnly places (giveUp cause own : Microprogram α) := trivial

theorem bind (h : p.StoresOnly places) (hrest : ∀ value, (f value).StoresOnly places) :
    (p >>= f).StoresOnly places := by
  rw [bind_eq_andThen]
  induction p with
  | done value => exact hrest value
  | raise cause own => trivial
  | load access reads place next ih => exact fun byte => ih byte (h byte)
  | store place value next ih => exact ⟨h.1, ih () h.2⟩
  | inspect next ih => exact fun r => ih r (h r)
  | replace registers next ih => exact ih () h

theorem ite {c : Prop} [Decidable c] {q : Microprogram α} (hp : c → p.StoresOnly places)
    (hq : q.StoresOnly places) : (if c then p else q).StoresOnly places := by
  split
  case isTrue hc => exact hp hc
  case isFalse => exact hq

theorem forM {γ : Type} {xs : List γ} {f : γ → Microprogram PUnit}
    (h : ∀ x, (f x).StoresOnly places) : (xs.forM f).StoresOnly places := by
  induction xs with
  | nil => exact pure _
  | cons x xs ih => exact bind (h x) fun _ => ih

/-! ### Parts -/

theorem registers : registers.StoresOnly places := fun _ => trivial

theorem set (r : Registers) : (setRegisters r).StoresOnly places := trivial

theorem modify (change : Registers → Registers) :
    (modifyRegisters change).StoresOnly places :=
  fun _ => trivial

theorem settle {n : Nat} (compute : Word → Computed n) :
    (settle compute).StoresOnly places :=
  fun _ => trivial

theorem loadWord (place : FarPointer) : (loadWord place).StoresOnly places := fun _ _ => trivial

theorem loadData (width : Width) (place : FarPointer) :
    (loadData width place).StoresOnly places := by
  cases width with
  | byte => exact fun _ => trivial
  | word => exact loadWord place

theorem loadPointer (place : FarPointer) : (loadPointer place).StoresOnly places :=
  bind (loadWord place) fun _ => bind (loadWord _) fun _ => pure _

theorem loadOperand (operand : Operand) (width : Width) :
    (operand.load width).StoresOnly places := by
  cases operand with
  | register index => exact bind registers fun _ => pure _
  | memory place => exact loadData width place

theorem placeOperand (operand : Operand) (opcode : Byte) :
    (operand.place opcode).StoresOnly places := by
  cases operand with
  | register index => exact giveUp _ _
  | memory place => exact pure _

theorem fetchByte : fetchByte.StoresOnly places := fun _ _ => trivial

theorem fetchWord : fetchWord.StoresOnly places :=
  bind fetchByte fun _ => bind fetchByte fun _ => pure _

theorem fetchSigned : fetchSigned.StoresOnly places := bind fetchByte fun _ => pure _

theorem fetchPointer : fetchPointer.StoresOnly places :=
  bind fetchWord fun _ => bind fetchWord fun _ => pure _

theorem fetchNumber (width : Width) (short : Bool) :
    (Instruction.fetchNumber width short).StoresOnly places := by
  cases width with
  | byte => exact fetchByte
  | word =>
    cases short with
    | false => exact fetchWord
    | true => exact fetchSigned

theorem fetchOperands (override : Option Word) : (Operands.fetch override).StoresOnly places := by
  refine bind fetchByte fun byte => ite (fun _ => pure _) ?_
  refine bind ?_ fun _ => bind registers fun _ => pure _
  exact ite (fun _ => fetchWord) (ite (fun _ => fetchSigned) (pure _))

theorem fetchPlace (override : Option Word) :
    (Instruction.fetchPlace override).StoresOnly places :=
  bind fetchWord fun _ => bind registers fun _ => pure _

theorem getRegister (width : Width) (index : RegisterIndex) :
    (Instruction.getRegister width index).StoresOnly places :=
  bind registers fun _ => pure _

theorem pop : pop.StoresOnly places :=
  bind registers fun _ => bind (loadWord _) fun _ => bind (modify _) fun _ => pure _

/-- Data take up the bytes that follow their place. -/
theorem storeData {width : Width} {place : FarPointer} (value : BitVec width.bits)
    (h : ∀ reached ∈ place.following width.size.toNat, places reached) :
    (storeData width place value).StoresOnly places := by
  have hplace (i : Nat) (hi : i < width.size.toNat) : places (place.advance (BitVec.ofNat 16 i)) :=
    h _ (List.mem_map_of_mem (List.mem_range.mpr hi))
  cases width with
  | byte =>
    have hfirst := hplace 0 (by decide)
    rw [place.advance_zero] at hfirst
    exact ⟨hfirst, trivial⟩
  | word =>
    have hfirst := hplace 0 (by decide)
    rw [place.advance_zero] at hfirst
    exact ⟨hfirst, hplace 1 (by decide), trivial⟩

theorem storeOperand {operand : Operand} {width : Width} (value : BitVec width.bits)
    (h : operand.Within width places) : (operand.store width value).StoresOnly places := by
  cases operand with
  | register index => exact modify _
  | memory place => exact storeData value (h place rfl)

end StoresOnly

/-! ## Programs that push -/

/-- The program pushes as many words, if it comes to an end, and stores nowhere else. -/
structure Descends (p : Microprogram α) (words : Nat) : Prop where
  stores : ∀ m : Machine, p.StoresIn m (m.registers.Below words)
  stack : ∀ (m : Machine) value after, p.run m = (.ok value, after) →
    after.registers.ss = m.registers.ss
      ∧ after.registers.sp = m.registers.sp - BitVec.ofNat 16 (2 * words)

end Microprogram

/-- Below the words that have been pushed are more words below the top of the stack. -/
theorem Registers.Below.trans {r now : Registers} {words more : Nat} {place : FarPointer}
    (h : now.Below more place) (hss : now.ss = r.ss)
    (hsp : now.sp = r.sp - BitVec.ofNat 16 (2 * words)) : r.Below (words + more) place := by
  obtain ⟨i, hi, rfl⟩ := h
  refine ⟨2 * words + i, by omega, ?_⟩
  rw [hss, hsp, BitVec.sub_sub, ← BitVec.ofNat_add, Nat.add_assoc]

/-- Nothing but the top of the stack matters. -/
theorem Registers.Below.of_eq {r now : Registers} {words : Nat} {place : FarPointer}
    (h : now.Below words place) (hstack : now.stackPointer = r.stackPointer) :
    r.Below words place := by
  obtain ⟨i, hi, rfl⟩ := h
  obtain ⟨hss, hsp⟩ := FarPointer.mk.inj hstack
  exact ⟨i, hi, by rw [hss, hsp]⟩

theorem Registers.Below.mono {r : Registers} {words more : Nat} {place : FarPointer}
    (h : r.Below words place) (hle : words ≤ more) : r.Below more place := by
  obtain ⟨i, hi, rfl⟩ := h
  exact ⟨i, by omega, rfl⟩

namespace Machine

theorem stackPointer_past (n : Nat) (m : Machine) :
    (m.past n).registers.stackPointer = m.registers.stackPointer := rfl

theorem stackPointer_behindOpcode (m : Machine) :
    m.behindOpcode.registers.stackPointer = m.registers.stackPointer := stackPointer_past _ m

theorem stackPointer_behindOpcode_past (m : Machine) (n : Nat) :
    (m.behindOpcode.past n).registers.stackPointer = m.registers.stackPointer :=
  (stackPointer_past n _).trans (stackPointer_behindOpcode m)

end Machine

namespace Microprogram

namespace Descends

variable {α β : Type} {p : Microprogram α} {f : α → Microprogram β} {m : Machine}
  {words more : Nat}

/-- What comes next stores below what has been pushed. -/
theorem stores_bind (h : p.Descends words)
    (hrest : ∀ value m, (f value).StoresIn m (m.registers.Below more)) (m : Machine) :
    (p >>= f).StoresIn m (m.registers.Below (words + more)) := by
  refine ((h.stores m).mono fun place hplace => hplace.mono (Nat.le_add_right _ _)).bind
    fun value after hrun => ?_
  obtain ⟨hss, hsp⟩ := h.stack m value after hrun
  exact (hrest value after).mono fun place hplace => hplace.trans hss hsp

theorem bind (h : p.Descends words) (hrest : ∀ value, (f value).Descends more) :
    (p >>= f).Descends (words + more) := by
  refine ⟨h.stores_bind fun value => (hrest value).stores, fun m value last hrun => ?_⟩
  obtain ⟨middle, between, hfirst, hsecond⟩ := run_bind_eq_ok hrun
  obtain ⟨hss, hsp⟩ := h.stack m middle between hfirst
  obtain ⟨hss', hsp'⟩ := (hrest middle).stack between value last hsecond
  refine ⟨hss'.trans hss, ?_⟩
  rw [hsp', hsp, BitVec.sub_sub, ← BitVec.ofNat_add, Nat.mul_add]

/-- What stores nothing and leaves the top of the stack where it is pushes nothing. -/
theorem of_still (hstores : ∀ places, p.StoresOnly places)
    (hstack : ∀ (m : Machine) value after, p.run m = (.ok value, after) →
      after.registers.ss = m.registers.ss ∧ after.registers.sp = m.registers.sp) :
    p.Descends 0 := by
  refine ⟨fun m => (hstores _).storesIn m, fun m value after hrun => ?_⟩
  obtain ⟨hss, hsp⟩ := hstack m value after hrun
  exact ⟨hss, hsp.trans (BitVec.sub_zero _).symm⟩

/-- A part that pushes nothing, in front of others. -/
theorem still (h : p.Descends 0) (hrest : ∀ value, (f value).Descends more) :
    (p >>= f).Descends more := by
  have hbind := h.bind hrest
  rwa [Nat.zero_add] at hbind

theorem registers : Descends registers 0 :=
  of_still (fun _ => StoresOnly.registers) fun m value after hrun => by
    cases hrun
    exact ⟨rfl, rfl⟩

theorem modify {change : Registers → Registers} (hss : ∀ r, (change r).ss = r.ss)
    (hsp : ∀ r, (change r).sp = r.sp) : Descends (modifyRegisters change) 0 :=
  of_still (fun _ => StoresOnly.modify _) fun m value after hrun => by
    cases hrun
    exact ⟨hss _, hsp _⟩

theorem pure (value : α) : Descends (Pure.pure value : Microprogram α) 0 :=
  of_still (fun _ => StoresOnly.pure _) fun m value after hrun => by
    cases hrun
    exact ⟨rfl, rfl⟩

theorem fetchByte : Descends fetchByte 0 := by
  refine of_still (fun _ => StoresOnly.fetchByte) fun m byte after hrun => ?_
  obtain ⟨-, rfl⟩ := seen_fetchByte hrun
  exact ⟨rfl, rfl⟩

theorem fetchWord : Descends fetchWord 0 :=
  fetchByte.still fun _ => fetchByte.still fun _ => pure _

theorem fetchSigned : Descends fetchSigned 0 := fetchByte.still fun _ => pure _

theorem fetchPointer : Descends fetchPointer 0 :=
  fetchWord.still fun _ => fetchWord.still fun _ => pure _

theorem fetchWordNumber (short : Bool) : Descends (Instruction.fetchNumber .word short) 0 := by
  cases short with
  | false => exact fetchWord
  | true => exact fetchSigned

theorem loadOperand (operand : Operand) (width : Width) : Descends (operand.load width) 0 := by
  refine of_still (fun _ => StoresOnly.loadOperand operand width) fun m value after hrun => ?_
  obtain ⟨-, rfl⟩ := seen_loadOperand hrun
  exact ⟨rfl, rfl⟩

theorem loadWord (place : FarPointer) : Descends (loadWord place) 0 :=
  loadOperand (.memory place) .word

theorem loadPointer (place : FarPointer) : Descends (loadPointer place) 0 :=
  (loadWord _).still fun _ => (loadWord _).still fun _ => pure _

/-- The upper byte of the word lies at the top of what is pushed. -/
theorem push (value : Word) : Descends (push value) 1 := by
  refine ⟨fun m => ?_, fun m _ after hrun => ?_⟩
  · let lowered : Machine := { m with registers := { m.registers with sp := m.registers.sp - 2 } }
    show (storeData .word lowered.registers.stackPointer value).StoresIn lowered _
    refine StoresOnly.storesIn (StoresOnly.storeData _ fun reached hreached => ?_) lowered
    obtain ⟨i, hi, rfl⟩ := List.mem_map.mp hreached
    obtain rfl | rfl : i = 0 ∨ i = 1 := by
      have hlt : i < 2 := List.mem_range.mp hi
      omega
    · refine ⟨1, by omega, congrArg (FarPointer.mk _) ?_⟩
      exact BitVec.add_zero _
    · refine ⟨0, by omega, congrArg (FarPointer.mk _) ?_⟩
      show m.registers.sp - 2 + 1 = m.registers.sp - 1
      bv_omega
  · rw [(Instruction.push_eq_ok value hrun).2]
    exact ⟨rfl, rfl⟩

theorem pushReturn : Descends Instruction.pushReturn 1 := registers.still fun _ => push _

theorem pushFarReturn : Descends Instruction.pushFarReturn 2 :=
  registers.still fun _ => (push _).bind fun _ => pushReturn

theorem jumpBy (distance : Word) : Descends (Instruction.jumpBy distance) 0 :=
  modify (fun _ => rfl) fun _ => rfl

theorem jumpTo (offset : Word) : Descends (Instruction.jumpTo offset) 0 :=
  modify (fun _ => rfl) fun _ => rfl

theorem jumpFarTo (target : FarPointer) : Descends (Instruction.jumpFarTo target) 0 :=
  modify (fun _ => rfl) fun _ => rfl

theorem forM {γ : Type} {xs : List γ} {f : γ → Microprogram PUnit}
    (h : ∀ x, (f x).Descends 1) : (xs.forM f).Descends xs.length := by
  induction xs with
  | nil => exact pure _
  | cons x xs ih =>
    rw [List.length_cons, Nat.add_comm]
    exact (h x).bind fun _ => ih

theorem copyFramePointers (count : Nat) :
    Descends (Instruction.copyFramePointers count) count := by
  induction count with
  | zero => exact pure _
  | succ count ih =>
    have hlower : Descends (modifyRegisters fun r => { r with bp := r.bp - 2 }) 0 :=
      modify (fun _ => rfl) fun _ => rfl
    refine hlower.still fun _ => registers.still fun r => (loadWord _).still fun value => ?_
    rw [Nat.add_comm]
    exact (push value).bind fun _ => ih

end Descends

end Microprogram

end CmStream
