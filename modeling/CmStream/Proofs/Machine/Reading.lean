import CmStream.Proofs.Machine.Bodies
import CmStream.Proofs.Memory.Built

/-!
# How far a program reads

A program of an instruction reads its bytes one after the other, from the instruction pointer on.
How many they are, the first of them can decide. `Microprogram.Reads` says how many bytes a
program reads and how it leaves the machine that has been moved past them; if a program ends
early, it has read the first few of these bytes.
-/

namespace CmStream

namespace GrantedAccess

theorem fetches_append (accesses more : List GrantedAccess) :
    fetches (accesses ++ more) = fetches accesses ++ fetches more :=
  List.filter_append ..

/-- The fetches of bytes that lie one after the other. -/
def fetchesOf (place : FarPointer) : List Byte → List GrantedAccess
  | [] => []
  | byte :: code => ⟨.execute, place, byte⟩ :: fetchesOf (place.advance 1) code

theorem fetchesOf_append (place : FarPointer) (code more : List Byte) :
    fetchesOf place (code ++ more)
      = fetchesOf place code ++ fetchesOf (place.advance (BitVec.ofNat 16 code.length)) more := by
  induction code generalizing place with
  | nil =>
    rw [List.length_nil, FarPointer.advance_zero]
    rfl
  | cons byte code ih =>
    rw [List.length_cons, FarPointer.advance_succ, List.cons_append, fetchesOf, ih]
    rfl

theorem map_place_fetchesOf (place : FarPointer) (code : List Byte) :
    (fetchesOf place code).map (·.place) = place.following code.length := by
  induction code generalizing place with
  | nil => rfl
  | cons byte code ih =>
    unfold FarPointer.following
    rw [List.length_cons, List.range_succ_eq_map, List.map_cons, List.map_map,
      FarPointer.advance_zero]
    refine congrArg (List.cons place) ((ih _).trans (List.map_congr_left fun i _ => ?_))
    exact (FarPointer.advance_succ place i).symm

theorem length_fetchesOf (place : FarPointer) (code : List Byte) :
    (fetchesOf place code).length = code.length := by
  have hlength := congrArg List.length (map_place_fetchesOf place code)
  rwa [FarPointer.following, List.length_map, List.length_map, List.length_range] at hlength

end GrantedAccess

open GrantedAccess

namespace Machine

variable {m : Machine}

/-- The machine behind the next `n` bytes. -/
def past (n : Nat) (m : Machine) : Machine := m.skip (BitVec.ofNat 16 n)

theorem past_zero (m : Machine) : m.past 0 = m := by
  unfold past skip
  rw [BitVec.add_zero]

theorem past_add (n k : Nat) (m : Machine) : m.past (n + k) = (m.past n).past k := by
  unfold past skip
  rw [BitVec.ofNat_add, ← BitVec.add_assoc]

theorem past_skip (n : Nat) (m : Machine) : (m.skip 1).past n = m.past (n + 1) := by
  rw [Nat.add_comm]
  exact (past_add 1 n m).symm

theorem codePointer_past (n : Nat) (m : Machine) :
    (m.past n).registers.codePointer
      = m.registers.codePointer.advance (BitVec.ofNat 16 n) := rfl

theorem faces_nil (m : Machine) : m.Faces [] := fun _ hi => absurd hi (Nat.not_lt_zero _)

theorem faces_cons_iff {byte : Byte} {code : List Byte} :
    m.Faces (byte :: code)
      ↔ m.memory.read .execute m.registers.codePointer.linear = .ok byte
        ∧ (m.past 1).Faces code := by
  refine ⟨fun h => ⟨h.head, h.tail⟩, fun ⟨hfirst, hrest⟩ i hi => ?_⟩
  cases i with
  | zero =>
    rw [FarPointer.advance_zero]
    exact hfirst
  | succ i =>
    rw [FarPointer.advance_succ]
    exact hrest i (Nat.lt_of_succ_lt_succ hi)

theorem faces_append_iff {code more : List Byte} :
    m.Faces (code ++ more) ↔ m.Faces code ∧ (m.past code.length).Faces more := by
  induction code generalizing m with
  | nil =>
    rw [List.length_nil, past_zero]
    exact ⟨fun h => ⟨faces_nil m, h⟩, fun h => h.2⟩
  | cons byte code ih =>
    rw [List.cons_append, faces_cons_iff, faces_cons_iff, ih, List.length_cons, Nat.add_comm,
      past_add, and_assoc]

theorem Faces.drop {code : List Byte} (h : m.Faces code) {n : Nat} (hn : n ≤ code.length) :
    (m.past n).Faces (code.drop n) := by
  rw [← List.take_append_drop n code, faces_append_iff, List.length_take_of_le hn] at h
  exact h.2

/-- A machine on a memory of a single page, somewhere in the bytes at its beginning. -/
theorem faces_onePage (before : List Byte) {code : List Byte} {r : Registers} (hcs : r.cs = 0)
    (hip : r.ip = BitVec.ofNat 16 before.length) (hlength : (before ++ code).length ≤ pageSize) :
    Faces ⟨r, .onePage (before ++ code)⟩ code := by
  intro i hi
  have hwithin : before.length + i < (before ++ code).length := by
    rw [List.length_append]
    omega
  have haddress : (r.codePointer.advance (BitVec.ofNat 16 i)).linear = before.length + i := by
    have hsmall : before.length + i < 0x10000 := by
      simp only [pageSize] at hlength
      omega
    show r.cs.toNat * 16 + (r.ip + BitVec.ofNat 16 i).toNat = before.length + i
    rw [hcs, hip, ← BitVec.ofNat_add, Word.toNat_ofNat_of_lt hsmall]
    exact Nat.zero_add _
  show PagedMemory.read _ .execute (r.codePointer.advance (BitVec.ofNat 16 i)).linear = _
  rw [haddress, PagedMemory.read_onePage .execute hwithin hlength,
    List.getElem_append_right (Nat.le_add_right _ _)]
  simp only [Nat.add_sub_cancel_left]

/-- The byte at the instruction pointer; zero if it cannot be executed. -/
def nextByte (m : Machine) : Byte :=
  match m.memory.read .execute m.registers.codePointer.linear with
  | .ok byte => byte
  | .error _ => 0

theorem Faces.nextByte_eq {byte : Byte} {code : List Byte} (h : m.Faces (byte :: code)) :
    m.nextByte = byte := by
  unfold nextByte
  rw [h.head]

/-- The flags word is settled; the instruction pointer may be anywhere. -/
def Settles (before after : Machine) : Prop :=
  Flags.Settled before.registers.flags after.registers.flags

instance : Std.Refl (@Eq Machine) := ⟨Eq.refl⟩

instance : Std.Refl Stays := ⟨Stays.refl⟩

instance : Std.Refl Settles := ⟨fun m => Flags.Settled.refl m.registers.flags⟩

end Machine

namespace Microprogram

open Machine

variable {α β : Type} {m : Machine} {n k : Nat} {p : Microprogram α} {f : α → Microprogram β}
  {R : Machine → Machine → Prop}

/-- A program reads `n` bytes of code, or gives up behind the first few of them; the relation holds
between the machine behind the bytes that have been read and the machine at the end. -/
def Reads (R : Machine → Machine → Prop) (p : Microprogram α) (n : Nat) (m : Machine) : Prop :=
  ∃ code, m.Faces code ∧ code.length ≤ n
    ∧ fetches (p.accesses m) = fetchesOf m.registers.codePointer code
    ∧ R (m.past code.length) (p.run m).2
    ∧ ∀ value, (p.run m).1 = .ok value → code.length = n

/-! ## Programs that only look -/

/-- A program that fetches nothing and leaves the machine as it is. -/
def Looks (p : Microprogram α) : Prop :=
  ∀ m : Machine, fetches (p.accesses m) = [] ∧ (p.run m).2 = m

namespace Looks

theorem done (value : α) : Looks (done value) := fun _ => ⟨rfl, rfl⟩

theorem raise (cause : Cause) (own : cause.isFault = false) :
    Looks (raise cause own : Microprogram α) := fun _ => ⟨rfl, rfl⟩

theorem registers : Looks registers := fun _ => ⟨rfl, rfl⟩

theorem bind (h : Looks p) (hrest : ∀ value, Looks (f value)) : Looks (p >>= f) := by
  intro m
  obtain ⟨hfetches, hafter⟩ := h m
  rw [accesses_bind, run_bind, fetches_append, hfetches]
  rcases hrun : p.run m with ⟨result, after⟩
  rw [hrun] at hafter
  obtain rfl : after = m := hafter
  cases result with
  | error cause => exact ⟨rfl, rfl⟩
  | ok value => exact hrest value after

theorem loadByte (place : FarPointer) : Looks (loadByte .read place) := by
  intro m
  unfold Microprogram.loadByte accesses run
  cases m.memory.read .read place.linear with
  | ok byte => exact ⟨rfl, rfl⟩
  | error fault => exact ⟨rfl, rfl⟩

theorem loadWord (place : FarPointer) : Looks (loadWord place) :=
  bind (loadByte place) fun _ => bind (loadByte _) fun _ => done _

theorem loadData (width : Width) (place : FarPointer) : Looks (loadData width place) := by
  cases width with
  | byte => exact loadByte place
  | word => exact loadWord place

theorem loadPointer (place : FarPointer) : Looks (loadPointer place) :=
  bind (loadWord place) fun _ => bind (loadWord _) fun _ => done _

theorem getRegister (width : Width) (index : RegisterIndex) :
    Looks (Instruction.getRegister width index) :=
  bind registers fun _ => done _

theorem loadOperand (operand : Operand) (width : Width) : Looks (operand.load width) := by
  cases operand with
  | register index => exact bind registers fun _ => done _
  | memory place => exact loadData width place

theorem place (operand : Operand) (opcode : Byte) : Looks (operand.place opcode) := by
  cases operand with
  | register index => exact raise _ _
  | memory place => exact done _

theorem eq_of_run {value : α} {after : Machine} (h : Looks p)
    (hrun : p.run m = (.ok value, after)) : after = m := by
  have hafter := (h m).2
  rwa [hrun] at hafter

end Looks

/-! ## Programs that fetch nothing -/

/-- A program that fetches nothing and leaves the flags word settled. -/
def Settling (p : Microprogram α) : Prop :=
  ∀ m : Machine, fetches (p.accesses m) = [] ∧ m.Settles (p.run m).2

theorem Plain.fetches_eq_nil (h : Plain p) (m : Machine) : fetches (p.accesses m) = [] := by
  refine List.filter_eq_nil_iff.mpr fun granted hgranted => ?_
  exact fun hexecute => h.access_ne_execute m granted hgranted (of_decide_eq_true hexecute)

namespace Settling

theorem of_plain (h : Plain p) : Settling p := fun m => ⟨h.fetches_eq_nil m, (h.stays m).settled⟩

theorem registers : Settling registers := fun m => ⟨rfl, Flags.Settled.refl m.registers.flags⟩

theorem modify {change : Registers → Registers}
    (settled : ∀ r, Flags.Settled r.flags (change r).flags) :
    Settling (modifyRegisters change) :=
  fun m => ⟨rfl, settled m.registers⟩

theorem ite {c : Prop} [Decidable c] {q : Microprogram α} (hp : Settling p) (hq : Settling q) :
    Settling (if c then p else q) := by
  split
  case isTrue => exact hp
  case isFalse => exact hq

theorem bind (h : Settling p) (hrest : ∀ value, Settling (f value)) : Settling (p >>= f) := by
  intro m
  obtain ⟨hfetches, hsettles⟩ := h m
  rw [accesses_bind, run_bind, fetches_append, hfetches]
  rcases hrun : p.run m with ⟨result, after⟩
  rw [hrun] at hsettles
  cases result with
  | error cause => exact ⟨rfl, hsettles⟩
  | ok value =>
    obtain ⟨hnone, hafter⟩ := hrest value after
    exact ⟨hnone, Flags.Settled.trans hsettles hafter⟩

end Settling

/-! ## Rules -/

namespace Reads

theorem mono {R' : Machine → Machine → Prop} (h : Reads R p n m)
    (himp : ∀ before after, R before after → R' before after) : Reads R' p n m := by
  obtain ⟨code, hface, hle, hfetches, hafter, hlength⟩ := h
  exact ⟨code, hface, hle, hfetches, himp _ _ hafter, hlength⟩

theorem of_fetches_eq_nil (hfetches : fetches (p.accesses m) = []) (hafter : R m (p.run m).2) :
    Reads R p 0 m := by
  refine ⟨[], faces_nil m, Nat.le_refl 0, hfetches, ?_, fun _ _ => rfl⟩
  rw [List.length_nil, past_zero]
  exact hafter

theorem of_looks (h : Looks p) (m : Machine) : Reads Eq p 0 m :=
  of_fetches_eq_nil (h m).1 (h m).2.symm

theorem of_plain (h : Plain p) (m : Machine) : Reads Stays p 0 m :=
  of_fetches_eq_nil (h.fetches_eq_nil m) (h.stays m)

theorem of_settling (h : Settling p) (m : Machine) : Reads Settles p 0 m :=
  of_fetches_eq_nil (h m).1 (h m).2

/-- A program that only reads leaves the machine behind what it has read. -/
theorem eq_past {value : α} {after : Machine} (h : Reads Eq p n m)
    (hrun : p.run m = (.ok value, after)) : after = m.past n := by
  obtain ⟨code, -, -, -, hafter, hlength⟩ := h
  rw [hrun] at hafter hlength
  rw [← hlength value rfl]
  exact hafter.symm

variable [Std.Refl R]

/-- Bytes that are read first, and what follows behind them. -/
theorem bind (h : Reads Eq p n m)
    (hrest : ∀ value, p.run m = (.ok value, m.past n) → Reads R (f value) k (m.past n)) :
    Reads R (p >>= f) (n + k) m := by
  obtain ⟨code, hface, hle, hfetches, hafter, hlength⟩ := h
  rcases hrun : p.run m with ⟨result, after⟩
  rw [hrun] at hafter hlength
  obtain rfl : m.past code.length = after := hafter
  unfold Reads
  rw [accesses_bind, run_bind, fetches_append, hfetches, hrun]
  cases result with
  | error cause =>
    refine ⟨code, hface, Nat.le_add_right_of_le hle, List.append_nil _, Std.Refl.refl _, ?_⟩
    exact fun value hvalue => by cases hvalue
  | ok value =>
    obtain rfl : code.length = n := hlength value rfl
    obtain ⟨more, hfaceMore, hleMore, hfetchesMore, hafterMore, hlengthMore⟩ := hrest value hrun
    refine ⟨code ++ more, faces_append_iff.mpr ⟨hface, hfaceMore⟩, ?_, ?_, ?_, ?_⟩
    · rw [List.length_append]
      exact Nat.add_le_add_left hleMore _
    · rw [hfetchesMore, fetchesOf_append, codePointer_past]
    · rw [List.length_append, past_add]
      exact hafterMore
    · intro last hlast
      rw [List.length_append, hlengthMore last hlast]

/-- A look at registers or data in front of what follows. -/
theorem look (h : Looks p) (hrest : ∀ value, Reads R (f value) n m) : Reads R (p >>= f) n m := by
  have hbind : Reads R (p >>= f) (0 + n) m :=
    (of_looks h m).bind fun value _ => by
      rw [past_zero]
      exact hrest value
  rwa [Nat.zero_add] at hbind

/-- The same if it does not matter how many bytes are read. -/
theorem exists_bind (h : ∃ n, Reads Eq p n m)
    (hrest : ∀ value after, p.run m = (.ok value, after) → ∃ n, Reads R (f value) n after) :
    ∃ n, Reads R (p >>= f) n m := by
  obtain ⟨n, hreads⟩ := h
  rcases hrun : p.run m with ⟨result, after⟩
  cases result with
  | error cause =>
    refine ⟨n + 0, hreads.bind fun value hvalue => ?_⟩
    rw [hrun] at hvalue
    cases hvalue
  | ok first =>
    obtain ⟨k, hreads'⟩ := hrest first after hrun
    refine ⟨n + k, hreads.bind fun value hvalue => ?_⟩
    rw [hrun] at hvalue
    cases hvalue
    exact hreads'

omit [Std.Refl R] in
/-- What is handed on makes no difference. -/
theorem map {g : α → β} (h : Reads R p n m) :
    Reads R (p >>= fun value => Pure.pure (g value)) n m := by
  obtain ⟨code, hface, hle, hfetches, hafter, hlength⟩ := h
  refine ⟨code, hface, hle, ?_, ?_, ?_⟩
  all_goals rcases hrun : p.run m with ⟨result, after⟩
  all_goals rw [hrun] at hafter hlength
  · rw [accesses_bind, hrun, ← hfetches]
    cases result <;> exact congrArg fetches (List.append_nil _)
  · rw [run_bind, hrun]
    cases result <;> exact hafter
  · rw [run_bind, hrun]
    cases result with
    | error cause => exact fun value hvalue => by cases hvalue
    | ok value => exact fun _ _ => hlength value rfl

/-! ## Parts of instructions -/

theorem fetchByte (m : Machine) : Reads Eq fetchByte 1 m := by
  cases hbyte : m.memory.read .execute m.registers.codePointer.linear with
  | ok byte =>
    have hface : m.Faces [byte] := faces_cons_iff.mpr ⟨hbyte, faces_nil _⟩
    refine ⟨[byte], hface, Nat.le_refl 1, ?_, ?_, fun _ _ => rfl⟩
    · show fetches (Microprogram.accesses (.load _ _ _ _) _) = _
      rw [accesses, hbyte]
      rfl
    · rw [run_fetchByte hface]
      rfl
  | error fault =>
    have hrun : Microprogram.fetchByte.run m = (.error (.fault fault), m) := by
      show Microprogram.run (.load _ _ _ _) _ = _
      rw [run, hbyte]
    refine ⟨[], faces_nil m, Nat.zero_le 1, ?_, ?_, ?_⟩
    · show fetches (Microprogram.accesses (.load _ _ _ _) _) = _
      rw [accesses, hbyte]
      rfl
    · rw [hrun, List.length_nil, past_zero]
    · rw [hrun]
      exact fun value hvalue => by cases hvalue

theorem fetchWord (m : Machine) : Reads Eq fetchWord 2 m :=
  (fetchByte m).bind (k := 1) fun _ _ => (fetchByte _).map

theorem fetchSigned (m : Machine) : Reads Eq fetchSigned 1 m := (fetchByte m).map

theorem fetchPointer (m : Machine) : Reads Eq fetchPointer 4 m :=
  (fetchWord m).bind (k := 2) fun _ _ => (fetchWord _).map

end Reads

end Microprogram

end CmStream
