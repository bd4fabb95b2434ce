import CmStream.Machine.Accesses
import CmStream.Proofs.Machine.Effects
import CmStream.Proofs.Machine.FlagBits
import CmStream.Proofs.Machine.Running

/-!
# Programs that leave the instruction pointer alone

Most of what an instruction does, it does without regard to where it lies. A program is plain if it
is put together from loads and stores of data and from changes of registers in which the instruction
pointer has no part. Such a program fetches nothing, leaves the instruction pointer where it is and
the flags word settled, and comes to the same wherever the instruction lies, as long as it stays off
the bytes of the instruction.
-/

namespace CmStream

/-- Two memories of one shape with the same bytes outside hidden slots. -/
structure PagedMemory.SameOutside (hidden : Slot → Prop) (m₁ m₂ : PagedMemory) : Prop where
  shape : m₁.SameShape m₂
  bytes : ∀ slot, ¬ hidden slot → m₁.byteAt slot = m₂.byteAt slot

/-- The same store on both sides. -/
theorem PagedMemory.SameOutside.setByteAt {hidden : Slot → Prop} {m₁ m₂ : PagedMemory}
    (h : SameOutside hidden m₁ m₂) (slot : Slot) (value : Byte) :
    (m₁.setByteAt slot value).SameOutside hidden (m₂.setByteAt slot value) :=
  ⟨h.shape.setByteAt slot value, fun seen hseen =>
    byteAt_setByteAt_congr h.shape slot value (h.bytes seen hseen)⟩

namespace Machine

/-- The instruction pointer is where it was before, and the flags word is settled. -/
structure Stays (before after : Machine) : Prop where
  ip : after.registers.ip = before.registers.ip
  settled : Flags.Settled before.registers.flags after.registers.flags

theorem Stays.refl (m : Machine) : m.Stays m := ⟨rfl, Flags.Settled.refl _⟩

theorem Stays.trans {before between after : Machine} (h : before.Stays between)
    (h' : between.Stays after) : before.Stays after :=
  ⟨h'.ip.trans h.ip, h.settled.trans h'.settled⟩

/-- The machine with its instruction pointer somewhere else. -/
def moved (ip : Word) (m : Machine) : Machine :=
  { m with registers := { m.registers with ip := ip } }

@[simp] theorem memory_moved (ip : Word) (m : Machine) : (m.moved ip).memory = m.memory := rfl

@[simp] theorem moved_moved (ip ip' : Word) (m : Machine) :
    (m.moved ip).moved ip' = m.moved ip' := rfl

theorem moved_self (m : Machine) : m.moved m.registers.ip = m := rfl

end Machine

namespace Microprogram

variable {α β : Type} {m : Machine}

/-! ## Accesses of a sequence -/

/-- Behind a part that has succeeded come the accesses of what follows it. -/
theorem accesses_bind (p : Microprogram α) (f : α → Microprogram β) (m : Machine) :
    (p >>= f).accesses m = p.accesses m ++ match p.run m with
      | (.ok value, after) => (f value).accesses after
      | (.error _, _) => [] := by
  rw [bind_eq_andThen]
  induction p generalizing m with
  | done | raise => rfl
  | load access reads place next ih =>
    simp only [andThen, accesses, run]
    cases m.memory.read access place.linear with
    | ok byte => exact congrArg (List.cons _) (ih byte m)
    | error fault => rfl
  | store place value next ih =>
    simp only [andThen, accesses, run]
    cases m.memory.locate .write place.linear with
    | ok slot => exact congrArg (List.cons _) (ih () _)
    | error fault => rfl
  | inspect next ih => exact ih m.registers m
  | replace registers next ih => exact ih () _

theorem accesses_bind_of_ok {p : Microprogram α} {value : α} {after : Machine}
    (f : α → Microprogram β) (h : p.run m = (.ok value, after)) :
    (p >>= f).accesses m = p.accesses m ++ (f value).accesses after := by
  rw [accesses_bind, h]

theorem accesses_bind_of_error {p : Microprogram α} {cause : Cause} {after : Machine}
    (f : α → Microprogram β) (h : p.run m = (.error cause, after)) :
    (p >>= f).accesses m = p.accesses m := by
  rw [accesses_bind, h, List.append_nil]

/-! ## Plain programs -/

/-- Replaces the registers and hands on a value. -/
def alter (change : Registers → α × Registers) : Microprogram α :=
  inspect fun r => replace (change r).2 fun _ => done (change r).1

theorem run_alter (change : Registers → α × Registers) (m : Machine) :
    (alter change).run m
      = (.ok (change m.registers).1, { m with registers := (change m.registers).2 }) := rfl

/-- Programs in which the instruction pointer has no part. -/
inductive Plain : {α : Type} → Microprogram α → Prop
  | done {α : Type} (value : α) : Plain (done value)
  | raise {α : Type} (cause : Cause) (own : cause.isFault = false) :
      Plain (raise cause own : Microprogram α)
  | load (place : FarPointer) : Plain (loadByte .read place)
  | store (place : FarPointer) (value : Byte) : Plain (storeByte place value)
  /-- What follows depends on the registers, but not on the instruction pointer. -/
  | inspect {α : Type} {next : Registers → Microprogram α}
      (blind : ∀ r ip, next { r with ip := ip } = next r) (plain : ∀ r, Plain (next r)) :
      Plain (registers >>= next)
  | alter {α : Type} (change : Registers → α × Registers)
      (blind : ∀ r ip, change { r with ip := ip } = ((change r).1, { (change r).2 with ip := ip }))
      (settled : ∀ r, Flags.Settled r.flags (change r).2.flags) : Plain (alter change)
  | bind {α β : Type} {p : Microprogram α} {f : α → Microprogram β} (first : Plain p)
      (rest : ∀ value, Plain (f value)) : Plain (p >>= f)

/-! ## What plain programs leave alone -/

theorem Plain.access_ne_execute {p : Microprogram α} (h : Plain p) (m : Machine) :
    ∀ granted ∈ p.accesses m, granted.access ≠ .execute := by
  induction h generalizing m with
  | done | raise =>
    intro granted hgranted
    cases hgranted
  | load place =>
    intro granted hgranted
    unfold loadByte accesses at hgranted
    split at hgranted
    case h_1 byte _ =>
      obtain rfl := List.mem_singleton.mp hgranted
      exact nofun
    case h_2 => cases hgranted
  | store place value =>
    intro granted hgranted
    unfold storeByte accesses at hgranted
    split at hgranted
    case h_1 slot _ =>
      obtain rfl := List.mem_singleton.mp hgranted
      exact nofun
    case h_2 => cases hgranted
  | inspect blind plain ih => exact ih m.registers m
  | alter blind settled =>
    intro granted hgranted
    cases hgranted
  | bind first rest ihfirst ihrest =>
    intro granted hgranted
    rw [accesses_bind] at hgranted
    rcases List.mem_append.mp hgranted with hfirst | hrest
    · exact ihfirst m granted hfirst
    · split at hrest
      case h_1 value after _ => exact ihrest value after granted hrest
      case h_2 => cases hrest

/-- The instruction pointer is where it was before, and the flags word is settled. -/
theorem Plain.stays {p : Microprogram α} (h : Plain p) (m : Machine) :
    m.Stays (p.run m).2 := by
  induction h generalizing m with
  | done | raise => exact Machine.Stays.refl m
  | load place =>
    unfold loadByte run
    split
    case h_1 => exact Machine.Stays.refl m
    case h_2 => exact Machine.Stays.refl m
  | store place value =>
    unfold storeByte run
    split
    case h_1 => exact ⟨rfl, Flags.Settled.refl _⟩
    case h_2 => exact Machine.Stays.refl m
  | inspect blind plain ih => exact ih m.registers m
  | @alter _ change blind settled =>
    -- With its own instruction pointer put in, a register file is what it was.
    have hself := blind m.registers m.registers.ip
    exact ⟨congrArg (fun changed => changed.2.ip) hself, settled m.registers⟩
  | bind first rest ihfirst ihrest =>
    rw [run_bind]
    have hfirst := ihfirst m
    split
    case h_1 value after hrun =>
      rw [hrun] at hfirst
      exact hfirst.trans (ihrest value after)
    case h_2 cause after hrun =>
      rw [hrun] at hfirst
      exact hfirst

/-! ## What plain programs do not depend on -/

/-- Where the instruction lies makes no difference. -/
theorem Plain.run_moved {p : Microprogram α} (h : Plain p) (ip : Word) (m : Machine) :
    p.run (m.moved ip) = ((p.run m).1, (p.run m).2.moved ip) := by
  induction h generalizing m with
  | done | raise => rfl
  | load place =>
    unfold loadByte run
    rw [Machine.memory_moved]
    split
    case h_1 => rfl
    case h_2 => rfl
  | store place value =>
    unfold storeByte run
    rw [Machine.memory_moved]
    split
    case h_1 => rfl
    case h_2 => rfl
  | @inspect _ next blind plain ih =>
    show (next { m.registers with ip := ip }).run (m.moved ip) = _
    rw [blind, ih]
    rfl
  | @alter _ change blind settled =>
    have hmoved : change (m.moved ip).registers = _ := blind m.registers ip
    rw [run_alter, run_alter, hmoved]
    rfl
  | @bind _ _ p f first rest ihfirst ihrest =>
    rw [run_bind, run_bind, ihfirst]
    rcases p.run m with ⟨result, after⟩
    cases result with
    | error cause => rfl
    | ok value => exact ihrest value after

theorem Plain.accesses_moved {p : Microprogram α} (h : Plain p) (ip : Word) (m : Machine) :
    p.accesses (m.moved ip) = p.accesses m := by
  induction h generalizing m with
  | done | raise => rfl
  | load place =>
    unfold loadByte accesses
    rw [Machine.memory_moved]
    rfl
  | store place value =>
    unfold storeByte accesses
    rw [Machine.memory_moved]
    rfl
  | @inspect _ next blind plain ih =>
    show (next { m.registers with ip := ip }).accesses (m.moved ip) = _
    rw [blind, ih]
    rfl
  | alter => rfl
  | @bind _ _ p f first rest ihfirst ihrest =>
    rw [accesses_bind, accesses_bind, ihfirst, first.run_moved]
    rcases p.run m with ⟨result, after⟩
    cases result with
    | error cause => rfl
    | ok value => exact congrArg _ (ihrest value after)

/-- A program ends alike, and leaves alike, two memories that differ in hidden slots alone, as long
as it reads none of these. -/
theorem run_sameOutside (p : Microprogram α) {hidden : Slot → Prop} {r : Registers}
    {memory₁ memory₂ : PagedMemory} (hsame : memory₁.SameOutside hidden memory₂)
    (hoff : ∀ granted ∈ p.accesses ⟨r, memory₁⟩, granted.access ≠ .write → ∀ slot,
      memory₁.locate granted.access granted.place.linear = .ok slot → ¬ hidden slot) :
    (p.run ⟨r, memory₁⟩).1 = (p.run ⟨r, memory₂⟩).1
      ∧ (p.run ⟨r, memory₁⟩).2.registers = (p.run ⟨r, memory₂⟩).2.registers
      ∧ (p.run ⟨r, memory₁⟩).2.memory.SameOutside hidden (p.run ⟨r, memory₂⟩).2.memory := by
  induction p generalizing r memory₁ memory₂ with
  | done | raise => exact ⟨rfl, rfl, hsame⟩
  | load access reads place next ih =>
    have hread : memory₁.read access place.linear = memory₂.read access place.linear := by
      unfold PagedMemory.read
      rw [← hsame.shape.locate_eq]
      cases hlocate : memory₁.locate access place.linear with
      | error fault => rfl
      | ok slot =>
        refine congrArg Except.ok (hsame.bytes slot ?_)
        refine hoff ⟨access, place, memory₁.byteAt slot⟩ ?_ reads slot hlocate
        unfold accesses PagedMemory.read
        rw [hlocate]
        exact List.mem_cons_self
    cases hbyte : memory₁.read access place.linear with
    | ok byte =>
      simp only [accesses, hbyte] at hoff
      simp only [run, ← hread, hbyte]
      exact ih byte hsame fun granted hgranted => hoff granted (List.mem_cons_of_mem _ hgranted)
    | error fault =>
      simp only [run, ← hread, hbyte]
      exact ⟨trivial, trivial, hsame⟩
  | store place value next ih =>
    have hplace := hsame.shape.locate_eq .write place.linear
    cases hlocate : memory₁.locate .write place.linear with
    | ok slot =>
      simp only [accesses, hlocate] at hoff
      simp only [run, ← hplace, hlocate]
      refine ih () (hsame.setByteAt slot value) fun granted hgranted hreads seen hseen => ?_
      rw [← (PagedMemory.sameShape_setByteAt _ _ _).locate_eq] at hseen
      exact hoff granted (List.mem_cons_of_mem _ hgranted) hreads seen hseen
    | error fault =>
      simp only [run, ← hplace, hlocate]
      exact ⟨trivial, trivial, hsame⟩
  | inspect next ih => exact ih r hsame hoff
  | replace registers next ih => exact ih () hsame hoff

end Microprogram

end CmStream
