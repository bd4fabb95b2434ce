import CmStream.Proofs.Strings.Searching

/-!
# Repeated string operations that are refused an access

A repeated string operation may be refused an access in any of its elements. It then stops behind
the elements that come before: registers and memory are as these leave them, one by one. Only a word
that is stored may be left half done, with its lower byte in place. What a program comes to that is
refused one of the accesses that it asks for is said by `Microprogram.Asks`, which goes through
sequences of programs.
-/

namespace CmStream

open Encoding GrantedAccess Machine Microprogram StringOperation

/-! ## Accesses that are asked for -/

namespace Microprogram

variable {α β : Type} {p : Microprogram α} {f : α → Microprogram β} {m after : Machine}
  {asked more : List (Access × FarPointer)} {whole whole' : α → Machine → Prop}
  {rest : β → Machine → Prop} {part part' : Fault → Machine → Prop}

/-- A program asks for some accesses in order. All of them are granted, and there is a value; or one
is refused, and those before it have been made. -/
inductive Asks (p : Microprogram α) (m : Machine) (asked : List (Access × FarPointer))
    (whole : α → Machine → Prop) (part : Fault → Machine → Prop) : Prop
  | granted {value : α} {after : Machine} (ending : p.run m = (.ok value, after))
      (made : (p.accesses m).map request = asked) (holds : whole value after)
  | refused {refused : Access × FarPointer} {last : Machine}
      (ending : p.run m = (.error (.fault ⟨refused.2.linear, refused.1⟩), last))
      (made : (p.accesses m).map request ++ [refused] <+: asked)
      (holds : part ⟨refused.2.linear, refused.1⟩ last)

namespace Asks

theorem mono (h : Asks p m asked whole part)
    (hwhole : ∀ value after, whole value after → whole' value after)
    (hpart : ∀ fault last, part fault last → part' fault last) :
    Asks p m asked whole' part' := by
  cases h with
  | granted ending made holds => exact .granted ending made (hwhole _ _ holds)
  | refused ending made holds => exact .refused ending made (hpart _ _ holds)

/-- Nothing is asked for. -/
theorem of_quiet {value : α} (hrun : p.run m = (.ok value, after)) (hnone : p.accesses m = [])
    (holds : whole value after) : Asks p m [] whole part := by
  refine .granted hrun ?_ holds
  rw [hnone]
  rfl

/-- A sequence asks for what its parts ask for. -/
theorem bind (h : Asks p m asked whole part)
    (hrest : ∀ value after, whole value after → Asks (f value) after more rest part) :
    Asks (p >>= f) m (asked ++ more) rest part := by
  cases h with
  | refused ending made holds =>
    refine .refused ?_ ?_ holds
    · rw [run_bind, ending]
    · rw [accesses_bind_of_error f ending]
      exact made.trans (List.prefix_append _ _)
  | granted ending made holds =>
    cases hrest _ _ holds with
    | granted ending' made' holds' =>
      refine .granted ((run_bind_of_ok f ending).trans ending') ?_ holds'
      rw [accesses_bind_of_ok f ending, List.map_append, made, made']
    | refused ending' made' holds' =>
      refine .refused ((run_bind_of_ok f ending).trans ending') ?_ holds'
      rw [accesses_bind_of_ok f ending, List.map_append, made, List.append_assoc]
      exact (List.prefix_append_right_inj _).mpr made'

/-- Behind what a sequence asks for, nothing more is. -/
theorem bind_quiet (h : Asks p m asked whole part)
    (hrest : ∀ value after, whole value after → Asks (f value) after [] rest part) :
    Asks (p >>= f) m asked rest part := by
  have hbind := h.bind hrest
  rwa [List.append_nil] at hbind

/-- A look at the registers in front of what follows. -/
theorem inspect {f : Registers → Microprogram α} (h : Asks (f m.registers) m asked whole part) :
    Asks (registers >>= f) m asked whole part := by
  cases h with
  | granted ending made holds => exact .granted ending made holds
  | refused ending made holds => exact .refused ending made holds

/-! ### Loads and stores -/

theorem loadByte (m : Machine) (place : FarPointer) :
    Asks (loadByte .read place) m [(.read, place)]
      (fun byte after => after = m ∧ m.memory.read .read place.linear = .ok byte)
      (fun fault last => last = m ∧ fault.access = .read) := by
  cases hread : m.memory.read .read place.linear with
  | ok byte =>
    refine .granted (run_loadByte (by decide) hread) ?_ ⟨rfl, rfl⟩
    rw [accesses_loadByte hread]
    rfl
  | error fault =>
    obtain rfl := (PagedMemory.read_eq_error hread).1
    refine @Asks.refused _ _ _ _ _ _ (.read, place) m ?_ ?_ ⟨rfl, rfl⟩
    · unfold Microprogram.loadByte
      rw [run, hread]
    · unfold Microprogram.loadByte
      rw [accesses, hread]
      exact List.prefix_refl _

/-- The bytes of data are asked for from the first to the last. -/
theorem loadData (m : Machine) (width : Width) (place : FarPointer) :
    Asks (loadData width place) m ((place.following width.size.toNat).map (.read, ·))
      (fun value after => after = m ∧ m.memory.data? width place = some value)
      (fun fault last => last = m ∧ fault.access = .read) := by
  have hplace : place.advance (BitVec.ofNat 16 0) = place := place.advance_zero
  cases width with
  | byte =>
    show Asks (Microprogram.loadByte .read place) m [(.read, place.advance (BitVec.ofNat 16 0))] _ _
    rw [hplace]
    refine (loadByte m place).mono (fun byte after ⟨hafter, hread⟩ => ⟨hafter, ?_⟩) fun _ _ => id
    unfold PagedMemory.data?
    rw [hread]
    rfl
  | word =>
    show Asks (loadWord place) m
      ([(.read, place.advance (BitVec.ofNat 16 0))] ++ [(.read, place.advance 1)]) _ _
    rw [hplace]
    refine (loadByte m place).bind fun first after ⟨hafter, hfirst⟩ => ?_
    subst hafter
    refine (loadByte after (place.advance 1)).bind_quiet fun second last ⟨hlast, hsecond⟩ => ?_
    subst hlast
    refine of_quiet rfl rfl ⟨rfl, ?_⟩
    unfold PagedMemory.data?
    rw [hfirst, hsecond]
    rfl

theorem storeByte (m : Machine) (place : FarPointer) (value : Byte) :
    Asks (storeByte place value) m [(.write, place)]
      (fun _ after => after.registers = m.registers
        ∧ m.memory.write place.linear value = .ok after.memory)
      (fun fault last => last = m ∧ fault = ⟨place.linear, .write⟩) := by
  cases hlocate : m.memory.locate .write place.linear with
  | ok slot =>
    refine .granted (run_storeByte value hlocate) ?_ ⟨rfl, ?_⟩
    · unfold Microprogram.storeByte
      rw [accesses, hlocate]
      rfl
    · unfold PagedMemory.write
      rw [hlocate]
      rfl
  | error fault =>
    obtain rfl := (PagedMemory.locate_eq_error hlocate).1
    refine @Asks.refused _ _ _ _ _ _ (.write, place) m ?_ ?_ ⟨rfl, rfl⟩
    · unfold Microprogram.storeByte
      rw [run, hlocate]
    · unfold Microprogram.storeByte
      rw [accesses, hlocate]
      exact List.prefix_refl _

end Asks

end Microprogram

/-- What is left of a store that is refused. Just if it is the upper byte of a word that is refused,
the lower byte has been stored. -/
def PagedMemory.PartlyStored (before : PagedMemory) (width : Width) (place : FarPointer)
    (value : BitVec width.bits) (fault : Fault) (after : PagedMemory) : Prop :=
  if fault = ⟨(place.advance 1).linear, .write⟩ then
    width = .word ∧ before.write place.linear (value.setWidth 8) = .ok after
  else after = before

theorem Word.setWidth_eq_low (w : Word) : w.setWidth 8 = low w := by
  apply BitVec.eq_of_toNat_eq
  rw [BitVec.toNat_setWidth, toNat_low]

theorem Microprogram.Asks.storeData (m : Machine) (width : Width) (place : FarPointer)
    (value : BitVec width.bits) :
    Asks (storeData width place value) m ((place.following width.size.toNat).map (.write, ·))
      (fun _ after => after.registers = m.registers)
      (fun fault last => last.registers = m.registers
        ∧ m.memory.PartlyStored width place value fault last.memory) := by
  have hplace : place.advance (BitVec.ofNat 16 0) = place := place.advance_zero
  have hfirst {width : Width} (value : BitVec width.bits) :
      m.memory.PartlyStored width place value ⟨place.linear, .write⟩ m.memory := by
    have hlower : (⟨place.linear, .write⟩ : Fault) ≠ ⟨(place.advance 1).linear, .write⟩ :=
      fun heq => place.linear_advance_ne (congrArg Fault.address heq)
    unfold PagedMemory.PartlyStored
    rw [if_neg hlower]
  cases width with
  | byte =>
    show Asks (Microprogram.storeByte place value) m
      [(.write, place.advance (BitVec.ofNat 16 0))] _ _
    rw [hplace]
    refine (storeByte m place value).mono (fun _ after h => h.1) ?_
    rintro _ last ⟨rfl, rfl⟩
    exact ⟨rfl, hfirst value⟩
  | word =>
    show Asks (storeWord place value) m
      ([(.write, place.advance (BitVec.ofNat 16 0))] ++ [(.write, place.advance 1)]) _ _
    rw [hplace]
    refine ((storeByte m place (Word.low value)).mono (fun _ _ => id) ?_).bind
      fun _ between ⟨hregisters, hstored⟩ => ?_
    · rintro _ last ⟨rfl, rfl⟩
      exact ⟨rfl, hfirst value⟩
    · refine (storeByte between (place.advance 1) (Word.high value)).mono
        (fun _ after h => h.1.trans hregisters) ?_
      rintro _ last ⟨rfl, rfl⟩
      refine ⟨hregisters, ?_⟩
      unfold PagedMemory.PartlyStored
      rw [if_pos rfl, Word.setWidth_eq_low]
      exact ⟨rfl, hstored⟩

/-! ## One element -/

namespace StringOperation

variable {m now after last : Machine} {head : Head} {operation : StringOperation} {width : Width}
  {repetition : Repetition} {segment : Word} {fault : Fault} {i : Nat}

/-- The accesses that an element asks for, by where the indices are. -/
def requests (operation : StringOperation) (width : Width) (segment : Word) (r : Registers) :
    List (Access × FarPointer) :=
  (if operation.usesSource then
      ((FarPointer.mk segment r.si).following width.size.toNat).map (.read, ·) else [])
    ++ if operation.usesDestination then
      ((FarPointer.mk r.es r.di).following width.size.toNat).map (operation.destinationAccess, ·)
      else []

/-- What is left of an element that is refused an access: all is as before, but the lower byte of
a word to be stored is in place just if it is the upper one that is refused. -/
def BrokenOff (operation : StringOperation) (width : Width) (segment : Word) (now : Machine)
    (fault : Fault) (last : Machine) : Prop :=
  let destination : FarPointer := ⟨now.registers.es, now.registers.di⟩
  last.registers = now.registers
    ∧ if fault = ⟨(destination.advance 1).linear, .write⟩ then
        (operation = .movs ∨ operation = .stos) ∧ width = .word
          ∧ ∃ value,
            (if operation.usesSource then now.memory.data? width ⟨segment, now.registers.si⟩
              else some (now.registers.get width 0)) = some value
            ∧ now.memory.write destination.linear (value.setWidth 8) = .ok last.memory
      else last.memory = now.memory

/-- Nothing is left of a load that is refused. -/
theorem brokenOff_of_read (hread : fault.access = .read) :
    operation.BrokenOff width segment now fault now := by
  refine ⟨rfl, ?_⟩
  rw [if_neg fun heq => ?_]
  rw [heq] at hread
  cases hread

theorem brokenOff_of_partlyStored {value : BitVec width.bits}
    (hstores : operation = .movs ∨ operation = .stos)
    (hvalue : (if operation.usesSource then now.memory.data? width ⟨segment, now.registers.si⟩
      else some (now.registers.get width 0)) = some value)
    (hregisters : last.registers = now.registers)
    (hpartly : now.memory.PartlyStored width ⟨now.registers.es, now.registers.di⟩ value fault
      last.memory) : operation.BrokenOff width segment now fault last := by
  refine ⟨hregisters, ?_⟩
  unfold PagedMemory.PartlyStored at hpartly
  split at hpartly
  case isTrue hupper =>
    rw [if_pos hupper]
    exact ⟨hstores, hpartly.1, value, hvalue, hpartly.2⟩
  case isFalse hother =>
    rw [if_neg hother]
    exact hpartly

/-- No register has changed but the accumulator and the flags, and the direction is the same. -/
structure SameIndices (now after : Machine) : Prop where
  registers : after.registers
    = { now.registers with ax := after.registers.ax, flags := after.registers.flags }
  direction : after.registers.flag .direction = now.registers.flag .direction

theorem asks_handle (operation : StringOperation) (width : Width) (segment : Word)
    (now : Machine) :
    Asks (operation.handle width segment) now (operation.requests width segment now.registers)
      (fun _ after => SameIndices now after) (operation.BrokenOff width segment now) := by
  have hload {operation : StringOperation} (place : FarPointer) :
      Asks (loadData width place) now ((place.following width.size.toNat).map (.read, ·))
        (fun value after => after = now ∧ now.memory.data? width place = some value)
        (operation.BrokenOff width segment now) :=
    (Asks.loadData now width place).mono (fun _ _ => id) fun fault last ⟨hlast, hread⟩ =>
      hlast ▸ brokenOff_of_read hread
  have hstore {operation : StringOperation} {value : BitVec width.bits}
      (hstores : operation = .movs ∨ operation = .stos)
      (hvalue : (if operation.usesSource then now.memory.data? width ⟨segment, now.registers.si⟩
        else some (now.registers.get width 0)) = some value) :
      Asks (storeData width ⟨now.registers.es, now.registers.di⟩ value) now
        (((FarPointer.mk now.registers.es now.registers.di).following width.size.toNat).map
          (.write, ·))
        (fun _ after => SameIndices now after) (operation.BrokenOff width segment now) :=
    (Asks.storeData now width ⟨now.registers.es, now.registers.di⟩ value).mono
      (fun _ after hafter => ⟨by rw [hafter], by rw [hafter]⟩)
      fun fault last ⟨hregisters, hpartly⟩ =>
        brokenOff_of_partlyStored hstores hvalue hregisters hpartly
  -- Whatever is compared, only flags are set, and not that of the direction.
  have hcompare {operation : StringOperation} (a b : BitVec width.bits) :
      Asks (discard (settle (Arithmetic.subtract a b false))) now []
        (fun _ after => SameIndices now after) (operation.BrokenOff width segment now) :=
    .of_quiet rfl rfl ⟨rfl, Arithmetic.get_direction_subtract a b now.registers.flags⟩
  refine .inspect ?_
  cases operation with
  | movs =>
    refine (hload _).bind fun value after hload => ?_
    obtain ⟨rfl, hvalue⟩ := hload
    exact hstore (.inl rfl) hvalue
  | cmps =>
    refine (hload _).bind fun a after hfirst => ?_
    obtain ⟨rfl, -⟩ := hfirst
    refine (hload _).bind_quiet fun b last hsecond => ?_
    obtain ⟨rfl, -⟩ := hsecond
    exact hcompare a b
  | stos => exact hstore (.inr rfl) rfl
  | lods =>
    refine (hload _).bind fun value after hfirst => ?_
    obtain ⟨rfl, -⟩ := hfirst
    refine .of_quiet rfl rfl ?_
    cases width <;> exact ⟨rfl, rfl⟩
  | scas =>
    refine (hload _).bind_quiet fun b last hsecond => ?_
    obtain ⟨rfl, -⟩ := hsecond
    exact hcompare _ b

/-- What an element that is whole comes to, as far as its indices go. -/
structure Moved (operation : StringOperation) (width : Width) (now after : Machine) : Prop where
  registers : after.registers = operation.advance width
    { now.registers with ax := after.registers.ax, flags := after.registers.flags }
  direction : after.registers.flag .direction = now.registers.flag .direction

theorem asks_element (operation : StringOperation) (width : Width) (segment : Word)
    (now : Machine) :
    Asks (operation.element width segment) now (operation.requests width segment now.registers)
      (fun _ after => operation.Moved width now after)
      (operation.BrokenOff width segment now) := by
  refine (asks_handle operation width segment now).bind_quiet fun _ between hsame => ?_
  refine .of_quiet rfl rfl ⟨?_, hsame.direction⟩
  show operation.advance width between.registers = _
  rw [hsame.registers]
  rfl

end StringOperation

/-! ## The counter -/

/-- The machine with another counter. -/
def Machine.withCounter (counter : Word) (m : Machine) : Machine :=
  { m with registers := { m.registers with cx := counter } }

namespace Microprogram

variable {α β : Type} {p : Microprogram α} {f : α → Microprogram β}

/-- The counter makes no difference to a program, and it stays as it is. -/
def IgnoresCounter (p : Microprogram α) : Prop :=
  ∀ (counter : Word) (m : Machine),
    p.run (m.withCounter counter) = ((p.run m).1, (p.run m).2.withCounter counter)

namespace IgnoresCounter

theorem done (value : α) : IgnoresCounter (done value) := fun _ _ => rfl

theorem bind (h : IgnoresCounter p) (hrest : ∀ value, IgnoresCounter (f value)) :
    IgnoresCounter (p >>= f) := by
  intro counter m
  rw [run_bind, run_bind, h]
  rcases p.run m with ⟨result, after⟩
  cases result with
  | ok value => exact hrest value counter after
  | error cause => rfl

theorem inspect {f : Registers → Microprogram β} (hblind : ∀ r cx, f { r with cx := cx } = f r)
    (h : ∀ r, IgnoresCounter (f r)) : IgnoresCounter (registers >>= f) := by
  intro counter m
  show (f { m.registers with cx := counter }).run (m.withCounter counter) = _
  rw [hblind]
  exact h m.registers counter m

theorem modify {change : Registers → Registers}
    (hblind : ∀ r cx, change { r with cx := cx } = { change r with cx := cx }) :
    IgnoresCounter (modifyRegisters change) := by
  intro counter m
  show (Except.ok (), Machine.mk (change { m.registers with cx := counter }) m.memory) = _
  rw [hblind]
  rfl

theorem settle {n : Nat} (compute : Word → Computed n) : IgnoresCounter (settle compute) :=
  fun _ _ => rfl

theorem loadByte (place : FarPointer) : IgnoresCounter (loadByte .read place) := by
  intro counter m
  unfold Microprogram.loadByte
  simp only [run, Machine.withCounter]
  cases m.memory.read .read place.linear <;> rfl

theorem storeByte (place : FarPointer) (value : Byte) : IgnoresCounter (storeByte place value) := by
  intro counter m
  unfold Microprogram.storeByte
  simp only [run, Machine.withCounter]
  cases m.memory.locate .write place.linear <;> rfl

theorem loadData (width : Width) (place : FarPointer) : IgnoresCounter (loadData width place) := by
  cases width with
  | byte => exact loadByte place
  | word => exact bind (loadByte _) fun _ => bind (loadByte _) fun _ => done _

theorem storeData (width : Width) (place : FarPointer) (value : BitVec width.bits) :
    IgnoresCounter (storeData width place value) := by
  cases width with
  | byte => exact storeByte place value
  | word => exact bind (storeByte _ _) fun _ => storeByte _ _

/-- Elements have no part in the counting. -/
theorem element (operation : StringOperation) (width : Width) (segment : Word) :
    IgnoresCounter (operation.element width segment) := by
  have hget (r : Registers) (cx : Word) : { r with cx := cx }.get width 0 = r.get width 0 := by
    cases width <;> rfl
  have hcompare (a b : BitVec width.bits) :
      IgnoresCounter (discard (Microprogram.settle (Arithmetic.subtract a b false))) :=
    bind (settle _) fun _ => done _
  refine bind (inspect (fun r cx => ?_) fun r => ?_) fun _ => modify fun _ _ => rfl
  · simp only [hget]
  · cases operation with
    | movs => exact bind (loadData _ _) fun _ => storeData _ _ _
    | cmps => exact bind (loadData _ _) fun a => bind (loadData _ _) fun b => hcompare a b
    | stos => exact storeData _ _ _
    | lods =>
      refine bind (loadData _ _) fun value => modify fun r cx => ?_
      cases width <;> rfl
    | scas => exact bind (loadData _ _) fun b => hcompare _ b

end IgnoresCounter

end Microprogram

/-! ## One element after the other -/

namespace StringOperation

variable {m now after last : Machine} {head : Head} {operation : StringOperation} {width : Width}
  {repetition : Repetition} {segment : Word} {cause : Cause} {i count : Nat}
  {seen : List GrantedAccess}

/-- Elements that end with a cause do so in one of them. The invariant goes from each element that
is whole to the next. The induction is on the elements that are counted still. -/
theorem exists_element_of_error (invariant : Nat → Machine → List GrantedAccess → Prop)
    (hstep : ∀ i now after seen, invariant i now seen →
      (operation.element width segment).run now = (.ok (), after) →
      invariant (i + 1) after.counted (seen ++ (operation.element width segment).accesses now))
    (hnow : invariant i m seen)
    (herror : (operation.elements width segment repetition count).run m = (.error cause, last)) :
    ∃ k now seen', k < count ∧ invariant (i + k) now seen'
      ∧ (operation.element width segment).run now = (.error cause, last)
      ∧ seen ++ (operation.elements width segment repetition count).accesses m
        = seen' ++ (operation.element width segment).accesses now := by
  induction count generalizing i m seen with
  | zero => cases herror
  | succ count ih =>
    rcases hrun : (operation.element width segment).run m with ⟨result, after⟩
    cases result with
    | error cause' =>
      rw [elements, run_bind, hrun] at herror
      cases herror
      refine ⟨0, m, seen, Nat.succ_pos count, hnow, hrun, ?_⟩
      rw [elements, accesses_bind_of_error _ hrun]
    | ok _ =>
      have hnext := hstep i m after seen hnow hrun
      rw [run_elements_succ count hrun] at herror
      rw [accesses_elements_succ count hrun, ← List.append_assoc]
      by_cases hover : operation.isOver repetition after.counted.registers = true
      · rw [if_pos hover] at herror
        cases herror
      · rw [if_neg hover] at herror ⊢
        obtain ⟨k, now, seen', hk, hinvariant, hfails, haccesses⟩ := ih hnext herror
        refine ⟨k + 1, now, seen', Nat.succ_lt_succ hk, ?_, hfails, haccesses⟩
        rwa [← Nat.add_assoc, Nat.add_right_comm]

/-- What has become of a machine when `i` elements have been handled whole, and what has been
accessed for them. But for the counter, it is what the elements come to by themselves. -/
structure Handled (m : Machine) (head : Head) (operation : StringOperation) (width : Width)
    (i : Nat) (now : Machine) (seen : List GrantedAccess) : Prop where
  uncounted : ∃ between,
    (operation.uncounted width (m.sourceSegment head) i).run m = (.ok (), between)
      ∧ now = between.withCounter (m.registers.cx - BitVec.ofNat 16 i)
  registers : now.registers = { operation.registersAfter width m.registers i with
    ax := now.registers.ax, flags := now.registers.flags }
  direction : now.registers.flag .direction = m.registers.flag .direction
  made : seen.map request = (List.range i).flatMap (m.requestedIn head operation width)

namespace Handled

theorem start (m : Machine) (head : Head) (operation : StringOperation) (width : Width) :
    Handled m head operation width 0 m [] where
  uncounted := by
    refine ⟨m, rfl, ?_⟩
    unfold withCounter
    rw [BitVec.sub_zero]
  registers := by rw [registersAfter_zero]
  direction := rfl
  made := rfl

/-- Where the indices are by now. -/
theorem requests_eq (h : Handled m head operation width i now seen) :
    operation.requests width (m.sourceSegment head) now.registers
      = m.requestedIn head operation width i := by
  unfold requests requestedIn
  rw [h.registers]
  dsimp only [registersAfter]
  congr 1
  · split <;> rfl
  · split <;> rfl

theorem next (h : Handled m head operation width i now seen)
    (hrun : (operation.element width (m.sourceSegment head)).run now = (.ok (), after)) :
    Handled m head operation width (i + 1) after.counted
      (seen ++ (operation.element width (m.sourceSegment head)).accesses now) := by
  obtain ⟨between, hbetween, hnow⟩ := h.uncounted
  cases asks_element operation width (m.sourceSegment head) now with
  | refused ending =>
    rw [hrun] at ending
    cases ending
  | granted ending made moved =>
    cases hrun.symm.trans ending
    refine ⟨?_, ?_, moved.direction.trans h.direction, ?_⟩
    · have hignores := IgnoresCounter.element operation width (m.sourceSegment head)
        (m.registers.cx - BitVec.ofNat 16 i) between
      rw [← hnow, hrun] at hignores
      rcases helement : (operation.element width (m.sourceSegment head)).run between
        with ⟨result, next⟩
      rw [helement] at hignores
      cases hignores
      refine ⟨next, (run_bind_of_ok _ hbetween).trans helement, ?_⟩
      unfold counted withCounter
      rw [BitVec.ofNat_add, ← BitVec.sub_sub]
      rfl
    · let r := { m.registers with ax := after.registers.ax }
      let r' := { now.registers with ax := after.registers.ax, flags := after.registers.flags }
      have hnow : r' = { operation.registersAfter width r i with flags := r'.flags } := by
        unfold r'
        rw [h.registers]
        rfl
      unfold counted
      rw [moved.registers]
      exact registersAfter_succ hnow (moved.direction.trans h.direction)
    · rw [List.map_append, h.made, made, h.requests_eq, List.range_succ, List.flatMap_append,
        List.flatMap_singleton]

end Handled

/-- Elements without a counter do not depend on where the instruction lies. -/
theorem plain_uncounted (operation : StringOperation) (width : Width) (segment : Word)
    (count : Nat) : Plain (operation.uncounted width segment count) := by
  induction count with
  | zero => exact .done _
  | succ count ih => exact .bind ih fun _ => .element operation width segment

end StringOperation

namespace Machine

variable {m last : Machine} {head : Head} {operation : StringOperation} {width : Width}
  {repetition : Repetition} {place : FarPointer} {fault : Fault} {cause : Cause}

/-- The step of a repeated string operation ends as its elements do. -/
theorem Repeats.step_of_error (h : m.Repeats head operation width repetition)
    (helements : (operation.elements width (m.sourceSegment head) repetition
      m.registers.cx.toNat).run (m.past head.length) = (.error cause, last)) :
    m.step = (.stopped (.gaveUp m.registers.codePointer cause), last)
      ∧ m.accesses = fetchesOf m.registers.codePointer head.bytes
        ++ (operation.elements width (m.sourceSegment head) repetition
          m.registers.cx.toNat).accesses (m.past head.length) := by
  have hperform : ((Instruction.string operation width).perform head.opcode
      ⟨override? head.modifiers m.registers, some repetition⟩).run (m.past head.length)
      = (.error cause, last) := helements
  have hfew : head.modifiers.length ≤ Instruction.maxModifiers := head.few
  refine ⟨step_of_perform_error h.run_fetch hperform, ?_⟩
  unfold accesses Instruction.fetchAndPerform
  rw [accesses_bind_of_ok _ h.run_fetch, accesses_bind_of_error _ hperform,
    Instruction.accesses_fetch _ h.faces_code head.modify hfew h.ofByte_opcode, h.bytes_eq]
  rfl

section

variable {now between : Machine} {seen : List GrantedAccess} {ip counter : Word} {k length : Nat}

/-- But for the counter and the instruction pointer, elements that have been handled come to what
they come to by themselves, wherever the instruction lies. -/
theorem exists_uncounted_of_handled
    (h : Handled (m.past length) head operation width k now seen) : ∃ between,
      (operation.uncounted width (m.sourceSegment head) k).run m = (.ok (), between)
        ∧ now = (between.moved (m.past length).registers.ip).withCounter
          (m.registers.cx - BitVec.ofNat 16 k) := by
  obtain ⟨moved, hmoved, hnow⟩ := h.uncounted
  have hplain := (plain_uncounted operation width (m.sourceSegment head) k).run_moved
    (m.past length).registers.ip m
  rcases hrun : (operation.uncounted width (m.sourceSegment head) k).run m with ⟨result, between⟩
  rw [hrun] at hplain
  cases hmoved.symm.trans hplain
  exact ⟨between, rfl, hnow⟩

/-- Where the destination of the next element lies. -/
theorem destination_of_handled
    (h : Handled (m.past length) head operation width k now seen)
    (huses : operation.usesDestination = true) :
    FarPointer.mk now.registers.es now.registers.di = m.destinationOf width k := by
  rw [h.registers]
  show FarPointer.mk _ (if _ then _ else _) = _
  rw [if_pos huses]
  rfl

/-- What the next element has to store, or to compare with its destination. -/
theorem first?_of_handled
    (h : Handled (m.past length) head operation width k
      ((between.moved ip).withCounter counter) seen) :
    between.first? head operation width 0 = if operation.usesSource then
      between.memory.data? width ⟨m.sourceSegment head, between.registers.si⟩
      else some (between.registers.get width 0) := by
  have hsegment : between.sourceSegment head = m.sourceSegment head := by
    have hregisters : between.registers = { between.registers with
        cs := m.registers.cs, ds := m.registers.ds,
        es := m.registers.es, ss := m.registers.ss } := by
      have hcs : between.registers.cs = m.registers.cs := (congrArg Registers.cs h.registers :)
      have hds : between.registers.ds = m.registers.ds := (congrArg Registers.ds h.registers :)
      have hes : between.registers.es = m.registers.es := (congrArg Registers.es h.registers :)
      have hss : between.registers.ss = m.registers.ss := (congrArg Registers.ss h.registers :)
      rw [← hcs, ← hds, ← hes, ← hss]
    unfold sourceSegment override?
    rw [hregisters]
    rfl
  unfold first? sourceOf
  rw [hsegment, BitVec.zero_mul, BitVec.add_zero]

/-- An operation without a destination asks for nothing but reads. -/
theorem access_of_mem_requestedIn {refused : Access × FarPointer}
    (hmem : refused ∈ m.requestedIn head operation width k)
    (huses : operation.usesDestination = false) : refused.1 = .read := by
  unfold requestedIn at hmem
  rw [huses, if_neg Bool.false_ne_true, List.append_nil] at hmem
  split at hmem
  case isTrue =>
    obtain ⟨place, -, rfl⟩ := List.mem_map.mp hmem
    rfl
  case isFalse => cases hmem

/-- What is left in memory of the element that is refused an access. -/
theorem memory_of_brokenOff
    (h : Handled (m.past length) head operation width k
      ((between.moved ip).withCounter counter) seen)
    (hbroken : operation.BrokenOff width (m.sourceSegment head)
      ((between.moved ip).withCounter counter) fault last)
    (hreads : operation.usesDestination = false → fault.access = .read) :
    if fault = ⟨((m.destinationOf width k).advance 1).linear, .write⟩ then
      (operation = .movs ∨ operation = .stos) ∧ width = .word
        ∧ ∃ value, between.first? head operation width 0 = some value
          ∧ between.memory.write (m.destinationOf width k).linear (value.setWidth 8)
            = .ok last.memory
    else last.memory = between.memory := by
  have hmemory := hbroken.2
  rw [first?_of_handled h]
  cases huses : operation.usesDestination with
  | true =>
    rw [destination_of_handled h huses] at hmemory
    have hget : ((between.moved ip).withCounter counter).registers.get width 0
        = between.registers.get width 0 := by cases width <;> rfl
    rw [hget] at hmemory
    exact hmemory
  | false =>
    have hread := hreads huses
    have hnot (place : FarPointer) : fault ≠ ⟨place.linear, .write⟩ := by
      rintro rfl
      cases hread
    rw [if_neg (hnot _)] at hmemory ⊢
    exact hmemory

end

/-- A repeated string operation that is refused an access stops between two elements. As many as
have been taken off the counter, `k`, are whole, fewer than were counted: registers and memory are
as these elements leave them by themselves, and the instruction pointer is behind the instruction,
while the stop names its beginning. Of the next element the accesses before the one that is refused
have been made. Only a store among them shows, that of the lower byte of a word, just if it is the
upper byte that is refused. Nothing has been accessed for any later element. -/
theorem step_repeated_fault (hrepeats : m.Repeats head operation width repetition)
    (hfault : m.step.1 = .stopped (.gaveUp place (.fault fault))) :
    place = m.registers.codePointer ∧ ∃ k between refused made,
      k = m.registers.cx.toNat - m.step.2.registers.cx.toNat ∧ k < m.registers.cx.toNat
      ∧ (operation.uncounted width (m.sourceSegment head) k).run m = (.ok (), between)
      ∧ m.step.2.registers = { between.registers with
          ip := m.registers.ip + BitVec.ofNat 16 head.length
          cx := m.registers.cx - BitVec.ofNat 16 k }
      ∧ (if fault = ⟨((m.destinationOf width k).advance 1).linear, .write⟩ then
          (operation = .movs ∨ operation = .stos) ∧ width = .word
            ∧ ∃ value, between.first? head operation width 0 = some value
              ∧ between.memory.write (m.destinationOf width k).linear (value.setWidth 8)
                = .ok m.step.2.memory
        else m.step.2.memory = between.memory)
      ∧ m.accesses.map request
        = (m.registers.codePointer.following head.length).map (.execute, ·)
          ++ (List.range k).flatMap (m.requestedIn head operation width) ++ made
      ∧ made ++ [refused] <+: m.requestedIn head operation width k
      ∧ fault = ⟨refused.2.linear, refused.1⟩ := by
  rcases helements : (operation.elements width (m.sourceSegment head) repetition
    m.registers.cx.toNat).run (m.past head.length) with ⟨result, last⟩
  cases result with
  | ok _ =>
    rw [hrepeats.step_eq helements] at hfault
    cases hfault
  | error cause =>
    obtain ⟨hstep, haccesses⟩ := hrepeats.step_of_error helements
    rw [hstep] at hfault
    cases hfault
    obtain ⟨k, now, seen, hk, hhandled, hfails, hseen⟩ := exists_element_of_error
      (Handled (m.past head.length) head operation width) (fun _ _ _ _ h hrun => h.next hrun)
      (Handled.start _ head operation width) helements
    rw [Nat.zero_add] at hhandled
    obtain ⟨between, hbetween, rfl⟩ := exists_uncounted_of_handled hhandled
    cases asks_element operation width (m.sourceSegment head)
      ((between.moved (m.past head.length).registers.ip).withCounter
        (m.registers.cx - BitVec.ofNat 16 k)) with
    | granted ending => cases hfails.symm.trans ending
    | @refused refused _ ending made holds =>
      cases hfails.symm.trans ending
      have hbytes : head.bytes.length = head.length := by
        rw [hrepeats.bytes_eq, hrepeats.length_eq, List.length_append]
        rfl
      have hrequests : operation.requests width (m.sourceSegment head) _ = _ := hhandled.requests_eq
      rw [hrequests] at made
      have hcounter : (m.registers.cx - BitVec.ofNat 16 k).toNat = m.registers.cx.toNat - k := by
        have hlt := m.registers.cx.isLt
        rw [BitVec.toNat_sub, Word.toNat_ofNat_of_lt (by omega)]
        omega
      refine ⟨rfl, k, between, refused, _, ?_, hk, hbetween, ?_, ?_, ?_, made, rfl⟩
      · rw [hstep]
        show k = m.registers.cx.toNat - last.registers.cx.toNat
        rw [holds.1]
        show k = m.registers.cx.toNat - (m.registers.cx - BitVec.ofNat 16 k).toNat
        omega
      · rw [hstep]
        exact holds.1
      · rw [hstep]
        refine memory_of_brokenOff hhandled holds fun huses => access_of_mem_requestedIn
          (made.subset (List.mem_append_right _ List.mem_cons_self)) huses
      · have hmade : seen.map request
          = (List.range k).flatMap (m.requestedIn head operation width) := hhandled.made
        rw [haccesses, List.map_append, map_request_fetchesOf, hbytes, List.append_assoc, ← hmade]
        rw [List.nil_append] at hseen
        have hmap := congrArg (List.map request) hseen
        rw [List.map_append] at hmap
        exact congrArg (_ ++ ·) hmap

/-- A fill that goes beyond the only page there is, with the second of its words across the end. -/
def overflowing : Machine :=
  ⟨{ Registers.initial with ax := 0x1234, cx := 3, di := 0xffd }, .onePage [0xf3, 0xab]⟩

theorem step_repeated_fault_overflowing :
    overflowing.step.1 = .stopped (.gaveUp overflowing.registers.codePointer
        (.fault ⟨0x1000, .write⟩))
      ∧ overflowing.step.2.registers.di = 0xfff ∧ overflowing.step.2.registers.cx = 2
      ∧ ∃ between, (StringOperation.stos.uncounted .word 0 1).run overflowing = (.ok (), between)
        ∧ between.memory.write 0xfff 0x34 = .ok overflowing.step.2.memory := by
  let head : Head := ⟨[0xf3], 0xab, none, by decide, by decide, rfl, rfl⟩
  have hfaces : overflowing.Faces head.bytes := faces_onePage [] rfl rfl (by decide)
  have hrepeats : overflowing.Repeats head .stos .word .whileEqual := ⟨hfaces, rfl, rfl⟩
  have hfault : overflowing.step.1 = .stopped (.gaveUp overflowing.registers.codePointer
      (.fault ⟨0x1000, .write⟩)) := by
    decide +kernel
  have hcx : overflowing.step.2.registers.cx = 2 := by decide +kernel
  obtain ⟨-, k, between, refused, made, hk, -, hbetween, hregisters, hmemory, -⟩ :=
    step_repeated_fault hrepeats hfault
  have hone : k = 1 := by
    rw [hk, hcx]
    rfl
  subst hone
  have hdi : ((StringOperation.stos.uncounted .word 0 1).run overflowing).2.registers.di
      = 0xfff := by
    decide +kernel
  have hax : ((StringOperation.stos.uncounted .word 0 1).run overflowing).2.registers.ax
      = 0x1234 := by
    decide +kernel
  have hafter : (StringOperation.stos.uncounted .word 0 1).run overflowing
    = (.ok (), between) := hbetween
  rw [hafter] at hdi hax
  rw [if_pos (by decide)] at hmemory
  obtain ⟨-, -, value, hvalue, hwrite⟩ := hmemory
  have hvalue' : some (between.registers.ax) = some value := hvalue
  cases hvalue'.symm.trans (congrArg some hax)
  exact ⟨hfault, (congrArg Registers.di hregisters).trans hdi, hcx, between, hafter, hwrite⟩

end Machine

end CmStream
