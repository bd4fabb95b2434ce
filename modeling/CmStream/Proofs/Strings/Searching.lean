import CmStream.Proofs.Strings.Repeating
import Mathlib.Data.Nat.Find

/-!
# Repeated comparisons

A repeated comparison is a search: it gets to the first element that the modifier asks for, or to
the last one that is counted. Flags that a comparison sets do not depend on those that an earlier
one has left, so only the last pair matters. Nothing is accessed behind it.
-/

namespace CmStream

open Encoding GrantedAccess Machine Microprogram StringOperation

/-! ## Flags of one comparison after another -/

namespace Arithmetic

/-- A comparison sets all of its flags anew. -/
theorem flags_subtract_subtract {n k : Nat} (a b : BitVec n) (a' b' : BitVec k) (flags : Word) :
    (subtract a b false (subtract a' b' false flags).flags).flags
      = (subtract a b false flags).flags := by
  refine BitVec.eq_of_getLsbD_eq fun i hi => ?_
  simp only [subtract, Flags.describe, Flags.getLsbD_set _ _ _ hi]
  split_ifs <;> rfl

theorem get_zero_subtract {n : Nat} (a b : BitVec n) (flags : Word) :
    Flags.get (subtract a b false flags).flags .zero = decide (a = b) := by
  have hzero : a - b - ofCarry n false = 0#n ↔ a = b := by
    rw [show ofCarry n false = 0#n from rfl, BitVec.sub_zero]
    exact BitVec.sub_eq_iff_eq_add.trans (by rw [BitVec.zero_add])
  simp only [subtract, Flags.describe, Flags.get_set]
  exact (beq_eq_decide _ _).trans (decide_eq_decide.mpr hzero)

theorem get_direction_subtract {n : Nat} (a b : BitVec n) (flags : Word) :
    Flags.get (subtract a b false flags).flags .direction = Flags.get flags .direction := by
  simp [subtract, Flags.describe, Flags.get_set]

end Arithmetic

/-! ## Fetching and loading -/

theorem GrantedAccess.map_request_fetchesOf (place : FarPointer) (code : List Byte) :
    (fetchesOf place code).map request = (place.following code.length).map (.execute, ·) := by
  rw [← map_place_fetchesOf, List.map_map]
  induction code generalizing place with
  | nil => rfl
  | cons byte code ih => exact congrArg (List.cons _) (ih _)

namespace Microprogram

open PagedMemory

variable {m : Machine} {width : Width} {place : FarPointer} {value : BitVec width.bits}

theorem exists_of_data?_word {value : Word} (h : m.memory.data? .word place = some value) :
    ∃ first second, m.memory.read .read place.linear = .ok first
      ∧ m.memory.read .read (place.advance 1).linear = .ok second
      ∧ value = Word.ofBytes first second := by
  unfold data? at h
  cases hfirst : m.memory.read .read place.linear with
  | error fault =>
    rw [hfirst] at h
    cases h
  | ok first =>
    cases hsecond : m.memory.read .read (place.advance 1).linear with
    | error fault =>
      rw [hfirst, hsecond] at h
      cases h
    | ok second =>
      rw [hfirst, hsecond] at h
      cases h
      exact ⟨first, second, rfl, rfl, rfl⟩

theorem read_of_data?_byte {value : Byte} (h : m.memory.data? .byte place = some value) :
    m.memory.read .read place.linear = .ok value := by
  unfold data? at h
  cases hread : m.memory.read .read place.linear with
  | error fault =>
    rw [hread] at h
    cases h
  | ok byte =>
    rw [hread] at h
    cases h
    rfl

theorem run_loadData (h : m.memory.data? width place = some value) :
    (loadData width place).run m = (.ok value, m) := by
  cases width with
  | byte => exact run_loadByte (by decide) (read_of_data?_byte h)
  | word =>
    obtain ⟨first, second, hfirst, hsecond, rfl⟩ := exists_of_data?_word h
    exact run_loadWord hfirst hsecond

theorem accesses_loadByte {byte : Byte} (h : m.memory.read .read place.linear = .ok byte) :
    (loadByte .read place).accesses m = [⟨.read, place, byte⟩] := by
  unfold loadByte
  rw [Microprogram.accesses, h]
  rfl

theorem accesses_loadData (h : m.memory.data? width place = some value) :
    ((loadData width place).accesses m).map request
      = (place.following width.size.toNat).map (.read, ·) := by
  have hplace : place.advance (BitVec.ofNat 16 0) = place := place.advance_zero
  cases width with
  | byte =>
    show ((loadByte .read place).accesses m).map request
      = [(.read, place.advance (BitVec.ofNat 16 0))]
    rw [accesses_loadByte (read_of_data?_byte h), hplace]
    rfl
  | word =>
    obtain ⟨first, second, hfirst, hsecond, rfl⟩ := exists_of_data?_word h
    show ((loadWord place).accesses m).map request
      = [(.read, place.advance (BitVec.ofNat 16 0)), (.read, place.advance 1)]
    unfold loadWord
    rw [accesses_bind_of_ok _ (run_loadByte (by decide) hfirst),
      accesses_bind_of_ok _ (run_loadByte (by decide) hsecond), accesses_loadByte hfirst,
      accesses_loadByte hsecond, hplace]
    rfl

end Microprogram

/-! ## One element -/

namespace StringOperation

variable {m now : Machine} {head : Head} {operation : StringOperation} {width : Width}
  {repetition : Repetition} {segment : Word} {a b : BitVec width.bits} {i e : Nat}

theorem pair?_eq_some (h : m.pair? head operation width i = some (a, b)) :
    m.first? head operation width i = some a
      ∧ m.memory.data? width (m.destinationOf width i) = some b := by
  obtain ⟨a', ha, hrest⟩ := Option.bind_eq_some_iff.mp h
  obtain ⟨b', hb, hpair⟩ := Option.map_eq_some_iff.mp hrest
  cases hpair
  exact ⟨ha, hb⟩

/-- A comparison reads its pair and sets flags. -/
theorem run_handle_of_compares (hcompares : operation.compares = true)
    (ha : (if operation.usesSource then now.memory.data? width ⟨segment, now.registers.si⟩
      else some (now.registers.get width 0)) = some a)
    (hb : now.memory.data? width ⟨now.registers.es, now.registers.di⟩ = some b) :
    (operation.handle width segment).run now = (.ok (), { now with registers :=
        { now.registers with flags := (Arithmetic.subtract a b false now.registers.flags).flags } })
      ∧ ((operation.handle width segment).accesses now).map request
        = ((if operation.usesSource then
            FarPointer.following ⟨segment, now.registers.si⟩ width.size.toNat else [])
          ++ FarPointer.following ⟨now.registers.es, now.registers.di⟩ width.size.toNat).map
            (.read, ·) := by
  cases operation with
  | movs | stos | lods => cases hcompares
  | cmps =>
    have hfirst := run_loadData (m := now) ha
    have hsecond := run_loadData (m := now) hb
    constructor
    · unfold handle
      rw [run_bind_of_ok _ run_registers]
      dsimp only
      rw [run_bind_of_ok _ hfirst, run_bind_of_ok _ hsecond]
      rfl
    · unfold handle
      rw [accesses_bind_of_ok _ run_registers]
      dsimp only
      rw [accesses_bind_of_ok _ hfirst, accesses_bind_of_ok _ hsecond]
      show List.map request (_ ++ (_ ++ [])) = _
      rw [List.append_nil, List.map_append, accesses_loadData ha, accesses_loadData hb,
        ← List.map_append]
      rfl
  | scas =>
    obtain rfl := Option.some.inj ha
    have hsecond := run_loadData (m := now) hb
    constructor
    · unfold handle
      rw [run_bind_of_ok _ run_registers]
      dsimp only
      rw [run_bind_of_ok _ hsecond]
      rfl
    · unfold handle
      rw [accesses_bind_of_ok _ run_registers]
      dsimp only
      rw [accesses_bind_of_ok _ hsecond]
      show List.map request (_ ++ []) = _
      rw [List.append_nil, accesses_loadData hb]
      rfl

/-- What has become of a machine when a comparison has handled `i` elements, and what has been
accessed for it. -/
structure Searched (m : Machine) (head : Head) (operation : StringOperation) (width : Width)
    (i : Nat) (now : Machine) (seen : List GrantedAccess) : Prop where
  registers : now.registers = { operation.registersAfter width m.registers i with
    flags := m.flagsAfter head operation width i }
  memory : now.memory = m.memory
  accesses : seen.map request
    = (List.range i).flatMap fun k => (m.comparedIn head operation width k).map (.read, ·)

theorem Searched.start (m : Machine) (head : Head) (operation : StringOperation) (width : Width) :
    Searched m head operation width 0 m [] where
  registers := by
    rw [registersAfter_zero]
    rfl
  memory := rfl
  accesses := rfl

theorem usesDestination_of_compares (h : operation.compares = true) :
    operation.usesDestination = true := by
  cases operation <;> first | rfl | cases h

theorem flagsAfter_succ (hpair : m.pair? head operation width i = some (a, b)) :
    m.flagsAfter head operation width (i + 1)
      = (Arithmetic.subtract a b false m.registers.flags).flags := by
  rw [flagsAfter, hpair]
  rfl

/-- The flags are as they were at first, or as some comparison leaves them. -/
theorem flagsAfter_cases (m : Machine) (head : Head) (operation : StringOperation) (width : Width)
    (i : Nat) : m.flagsAfter head operation width i = m.registers.flags
      ∨ ∃ a b : BitVec width.bits, m.flagsAfter head operation width i
        = (Arithmetic.subtract a b false m.registers.flags).flags := by
  cases i with
  | zero => exact .inl rfl
  | succ i =>
    cases hpair : m.pair? head operation width i with
    | none =>
      rw [flagsAfter, hpair]
      exact .inl rfl
    | some pair => exact .inr ⟨pair.1, pair.2, flagsAfter_succ hpair⟩

section

variable {seen : List GrantedAccess}

theorem Searched.source_eq (h : Searched m head operation width i now seen)
    (huses : operation.usesSource = true) :
    FarPointer.mk (m.sourceSegment head) now.registers.si = m.sourceOf head width i := by
  rw [h.registers]
  show FarPointer.mk _ (if _ then _ else _) = _
  rw [if_pos huses]
  rfl

theorem Searched.destination_eq (h : Searched m head operation width i now seen)
    (huses : operation.usesDestination = true) :
    FarPointer.mk now.registers.es now.registers.di = m.destinationOf width i := by
  rw [h.registers]
  show FarPointer.mk _ (if _ then _ else _) = _
  rw [if_pos huses]
  rfl

/-- What is compared with the destination lies under the source index, or in the accumulator. -/
theorem Searched.first?_eq (h : Searched m head operation width i now seen) :
    m.first? head operation width i = if operation.usesSource then
      now.memory.data? width ⟨m.sourceSegment head, now.registers.si⟩
      else some (now.registers.get width 0) := by
  unfold first?
  split
  case isTrue huses => rw [h.source_eq huses, h.memory]
  case isFalse =>
    rw [h.registers]
    cases width <;> rfl

/-- What is read are the places of the pair. -/
theorem Searched.comparedIn_eq (h : Searched m head operation width i now seen)
    (hcompares : operation.compares = true) : m.comparedIn head operation width i
      = (if operation.usesSource then
          FarPointer.following ⟨m.sourceSegment head, now.registers.si⟩ width.size.toNat else [])
        ++ FarPointer.following ⟨now.registers.es, now.registers.di⟩ width.size.toNat := by
  unfold comparedIn
  rw [h.destination_eq (usesDestination_of_compares hcompares)]
  split
  case isTrue huses => rw [h.source_eq huses]
  case isFalse => rfl

/-- One more element. -/
theorem Searched.next (hcompares : operation.compares = true)
    (h : Searched m head operation width i now seen)
    (hreadable : (m.pair? head operation width i).isSome = true) :
    ∃ after, (operation.element width (m.sourceSegment head)).run now = (.ok (), after)
      ∧ Searched m head operation width (i + 1) after.counted
        (seen ++ (operation.element width (m.sourceSegment head)).accesses now) := by
  obtain ⟨⟨a, b⟩, hpair⟩ := Option.isSome_iff_exists.mp hreadable
  obtain ⟨ha, hb⟩ := pair?_eq_some hpair
  rw [h.first?_eq] at ha
  rw [← h.memory, ← h.destination_eq (usesDestination_of_compares hcompares)] at hb
  obtain ⟨hrun, haccesses⟩ := run_handle_of_compares hcompares ha hb
  let compared : Registers := { now.registers with
    flags := (Arithmetic.subtract a b false now.registers.flags).flags }
  have hflags : compared.flags = m.flagsAfter head operation width (i + 1) := by
    show (Arithmetic.subtract a b false now.registers.flags).flags = _
    rw [flagsAfter_succ hpair, h.registers]
    obtain heq | ⟨a', b', heq⟩ := flagsAfter_cases m head operation width i
    · rw [heq]
    · rw [heq, Arithmetic.flags_subtract_subtract]
  have hcompared : compared
      = { operation.registersAfter width m.registers i with flags := compared.flags } := by
    show { now.registers with flags := compared.flags } = _
    rw [h.registers]
  have hdirection : compared.flag .direction = m.registers.flag .direction := by
    show Flags.get compared.flags .direction = _
    rw [hflags, flagsAfter_succ hpair]
    exact Arithmetic.get_direction_subtract a b m.registers.flags
  refine ⟨_, (run_bind_of_ok _ hrun).trans (run_modifyRegisters _), ?_, h.memory, ?_⟩
  · rw [← hflags]
    exact registersAfter_succ hcompared hdirection
  · unfold element
    rw [accesses_bind_of_ok _ hrun, List.map_append, List.map_append, h.accesses, haccesses,
      ← h.comparedIn_eq hcompares, List.range_succ, List.flatMap_append]
    exact congrArg _ ((List.append_nil _).trans (List.flatMap_singleton ..).symm)

/-! ## Which elements a search gets to -/

/-- A search is over when the comparison behind it has been a hit. -/
theorem Searched.isOver_eq (hcompares : operation.compares = true)
    (h : Searched m head operation width (i + 1) now seen)
    (hreadable : (m.pair? head operation width i).isSome = true) :
    operation.isOver repetition now.registers = true
      ↔ m.Hits head operation width repetition i := by
  obtain ⟨⟨a, b⟩, hpair⟩ := Option.isSome_iff_exists.mp hreadable
  have hzero : now.registers.flag .zero = decide (a = b) := by
    rw [h.registers]
    show Flags.get (m.flagsAfter head operation width (i + 1)) .zero = _
    rw [flagsAfter_succ hpair]
    exact Arithmetic.get_zero_subtract a b m.registers.flags
  have hhits : m.Hits head operation width repetition i
      ↔ (a = b ↔ repetition = .whileNotEqual) := by
    constructor
    · rintro ⟨a', b', hpair', hhit⟩
      cases hpair.symm.trans hpair'
      exact hhit
    · exact fun hhit => ⟨a, b, hpair, hhit⟩
  rw [hhits]
  unfold isOver
  rw [hcompares, hzero, Bool.true_and]
  cases repetition <;> by_cases hab : a = b <;> simp [hab]

/-- All elements in front of the last one are no hits; the last one is, unless all are counted. -/
theorem getsTo_spec (h : m.GetsTo head operation width repetition e) :
    (∀ i, i + 1 < e → ¬ m.Hits head operation width repetition i)
      ∧ (e = m.registers.cx.toNat ∨ ∃ i, e = i + 1 ∧ i < m.registers.cx.toNat
        ∧ m.Hits head operation width repetition i) := by
  cases h with
  | @hit k first =>
    refine ⟨fun i hi hhit => ?_, .inr ⟨k, rfl, first.1.1, first.1.2⟩⟩
    have hbefore : i < k := Nat.lt_of_succ_lt_succ hi
    exact Nat.not_le.mpr hbefore (first.2 ⟨hbefore.trans first.1.1, hhit⟩)
  | all none => exact ⟨fun i hi => none i (Nat.lt_of_succ_lt hi), .inl rfl⟩

/-- Every search gets to some number of elements. -/
theorem exists_getsTo (m : Machine) (head : Head) (operation : StringOperation) (width : Width)
    (repetition : Repetition) : ∃ e, m.GetsTo head operation width repetition e := by
  classical
  by_cases hsome : ∃ i, i < m.registers.cx.toNat ∧ m.Hits head operation width repetition i
  · exact ⟨_, .hit ⟨Nat.find_spec hsome, fun i hi => Nat.find_min' hsome hi⟩⟩
  · exact ⟨_, .all fun i hi hhit => hsome ⟨i, hi, hhit⟩⟩

/-- All elements that a search gets to. -/
theorem exists_run_search (hcompares : operation.compares = true)
    (hgets : m.GetsTo head operation width repetition e)
    (hreadable : ∀ i, i < e → (m.pair? head operation width i).isSome = true) :
    ∃ last, (operation.elements width (m.sourceSegment head) repetition
        m.registers.cx.toNat).run m = (.ok (), last)
      ∧ Searched m head operation width e last
        ((operation.elements width (m.sourceSegment head) repetition
          m.registers.cx.toNat).accesses m) := by
  obtain ⟨hmisses, hlast⟩ := getsTo_spec hgets
  refine exists_run_elements (Searched m head operation width)
    (fun i now seen hi h => h.next hcompares (hreadable i hi)) (fun i now seen hi h hpos => ?_)
    [] (Searched.start m head operation width) (hlast.imp (by omega) ?_)
  · obtain ⟨k, rfl⟩ := Nat.exists_eq_succ_of_ne_zero (Nat.ne_of_gt hpos)
    rw [Bool.eq_false_iff]
    exact fun hover => hmisses k hi ((h.isOver_eq hcompares
      (hreadable k (Nat.lt_of_succ_lt hi))).mp hover)
  · rintro ⟨k, rfl, hk, hhit⟩
    exact ⟨Nat.succ_pos k, by omega, fun now seen h =>
      (h.isOver_eq hcompares (hreadable k (Nat.lt_succ_self k))).mpr hhit⟩

end

end StringOperation

namespace Machine

variable {m : Machine} {head : Head} {operation : StringOperation} {width : Width}
  {repetition : Repetition} {e : Nat}

/-- What is searched does not depend on where the instruction lies. -/
theorem GetsTo.past (h : m.GetsTo head operation width repetition e) (length : Nat) :
    (m.past length).GetsTo head operation width repetition e := by
  cases h with
  | hit first => exact .hit first
  | all none => exact .all none

/-- A repeated comparison whose pairs can be read up to the first one that the modifier is for, or
up to the last one that is counted, gets just so far. It takes as many elements off the counter,
moves the indices that it uses by as many, and leaves the flags as comparing the last pair does.
Memory and all other registers stay, and what is accessed behind the instruction are those pairs, in
order. If none are counted, nothing changes but the instruction pointer. -/
theorem step_repeated_search (hcompares : operation.compares = true)
    (hrepeats : m.Repeats head operation width repetition)
    (hgets : m.GetsTo head operation width repetition e)
    (hreadable : ∀ i, i < e → (m.pair? head operation width i).isSome = true) :
    m.step = (.continued, ⟨{ m.registers with
        ip := m.registers.ip + BitVec.ofNat 16 head.length
        cx := m.registers.cx - BitVec.ofNat 16 e
        si := if operation.usesSource then
          m.registers.si + BitVec.ofNat 16 e * stride width m.registers else m.registers.si
        di := m.registers.di + BitVec.ofNat 16 e * stride width m.registers
        flags := m.flagsAfter head operation width e }, m.memory⟩)
      ∧ m.accesses.map request
        = (m.registers.codePointer.following head.length).map (.execute, ·)
          ++ ((List.range e).flatMap fun i =>
            (m.comparedIn head operation width i).map (.read, ·))
      ∧ (m.registers.cx = 0 → m.step = (.continued, m.past head.length)) := by
  obtain ⟨last, hrun, hsearched⟩ := exists_run_search hcompares (hgets.past head.length) hreadable
  have hregisters : last.registers
      = { operation.registersAfter width (m.past head.length).registers e with
        flags := m.flagsAfter head operation width e } := hsearched.registers
  have hmemory : last.memory = m.memory := hsearched.memory
  have hlast : last = ⟨last.registers, last.memory⟩ := rfl
  refine ⟨(hrepeats.step_eq hrun).trans ?_, ?_, fun hcounter => hrepeats.step_eq ?_⟩
  · rw [hlast, hregisters, hmemory, registersAfter, if_pos (usesDestination_of_compares hcompares)]
    rfl
  · have hbytes : head.bytes.length = head.length := by
      rw [hrepeats.bytes_eq, hrepeats.length_eq, List.length_append]
      rfl
    rw [hrepeats.accesses_eq hrun, List.map_append, map_request_fetchesOf, hbytes]
    exact congrArg _ hsearched.accesses
  · rw [hcounter]
    rfl

/-- A six is looked for in the three bytes behind the instruction. -/
def searching : Machine :=
  ⟨{ Registers.initial with ax := 6, cx := 10, di := 2 }, .onePage [0xf2, 0xae, 5, 6, 7]⟩

theorem step_repeated_search_searching :
    searching.step.1 = .continued ∧ searching.step.2.registers.cx = 8
      ∧ searching.step.2.registers.di = 4 ∧ searching.step.2.registers.flag .zero = true
      ∧ searching.accesses.map request
        = [(.execute, ⟨0, 0⟩), (.execute, ⟨0, 1⟩), (.read, ⟨0, 2⟩), (.read, ⟨0, 3⟩)] := by
  let head : Head := ⟨[0xf2], 0xae, none, by decide, by decide, rfl, rfl⟩
  have hfaces : searching.Faces ([0xf2, 0xae] ++ [5, 6, 7]) := faces_onePage [] rfl rfl (by decide)
  have hmiss : searching.pair? head .scas .byte 0 = some (6, 5) := by decide +kernel
  have hhit : searching.pair? head .scas .byte 1 = some (6, 6) := by decide +kernel
  have hfirst : IsLeast { i | i < searching.registers.cx.toNat
      ∧ searching.Hits head .scas .byte .whileNotEqual i } 1 := by
    refine ⟨⟨by decide, 6, 6, hhit, by decide⟩, fun i ⟨_, a, b, hpair, hsame⟩ => ?_⟩
    refine Nat.one_le_iff_ne_zero.mpr fun hzero => ?_
    rw [hzero, hmiss] at hpair
    cases hpair
    exact absurd (hsame.mpr rfl) (by decide)
  have hrepeats : searching.Repeats head .scas .byte .whileNotEqual :=
    ⟨(faces_append_iff.mp hfaces).1, rfl, rfl⟩
  obtain ⟨hstep, haccesses, -⟩ := step_repeated_search rfl hrepeats (.hit hfirst) fun i hi => by
      obtain rfl | rfl : i = 0 ∨ i = 1 := by omega
      · rw [hmiss]
        rfl
      · rw [hhit]
        rfl
  have hzero : Flags.get (searching.flagsAfter head .scas .byte (1 + 1)) .zero = true := by
    rw [flagsAfter_succ hhit]
    exact (Arithmetic.get_zero_subtract ..).trans (decide_eq_true rfl)
  rw [hstep]
  refine ⟨rfl, rfl, rfl, ?_, haccesses⟩
  unfold Registers.flag
  dsimp only
  exact hzero

end Machine

end CmStream
