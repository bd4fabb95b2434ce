import CmStream.Proofs.Machine.Iteration
import CmStream.Proofs.Machine.Latches
import Mathlib.Order.Bounds.Defs

/-!
# A run is its steps

The first of consecutive steps that does not continue decides how a run ends, if the limit lets the
run come to it; otherwise the limit does, behind as many steps as it grants. So a run that a limit
has cut short can be taken up where it was left: both parts together are the run under the sum of
their limits. Nothing but the registers and the memory has to be kept for that.
-/

namespace CmStream

namespace Machine

variable {m between last : Machine} {n k a b : Nat} {stop : Stop} {ending : Except Stop Nat}

/-- What the step of a number leads to, when steps are made one after the other and counted from
one. -/
def outcomeAt (number : Nat) (m : Machine) : Outcome := (m.after (number - 1)).step.1

/-- The numbers of the steps that do not continue. -/
def endingSteps (m : Machine) : Set Nat :=
  {number | 0 < number ∧ m.outcomeAt number ≠ .continued}

/-- The ending of a run, if the steps made before it count as well. -/
def countFrom (made : Nat) : Except Stop Nat → Except Stop Nat
  | .ok steps => .ok (made + steps)
  | .error (.stepLimit steps) => .error (.stepLimit (made + steps))
  | .error (.gaveUp place cause) => .error (.gaveUp place cause)

/-! ## The first step that does not continue -/

/-- Up to the steps that do not continue all steps do. -/
theorem continues_of_lt (h : ∀ number ∈ m.endingSteps, n < number) : m.Continues n := by
  intro i hi
  refine Decidable.byContradiction fun hother => ?_
  have hending : i + 1 ∈ m.endingSteps := ⟨Nat.succ_pos i, hother⟩
  exact absurd hi (Nat.not_lt.mpr (Nat.le_of_lt_succ (h (i + 1) hending)))

/-- The first step that does not continue, counted from one, has only steps that do before it. -/
theorem exists_of_isLeast (h : IsLeast m.endingSteps k) :
    ∃ i, k = i + 1 ∧ m.Continues i ∧ m.outcomeAt k = (m.after i).step.1 := by
  obtain ⟨⟨hpositive, -⟩, hleast⟩ := h
  obtain ⟨i, rfl⟩ := Nat.exists_eq_succ_of_ne_zero (Nat.ne_of_gt hpositive)
  refine ⟨i, rfl, continues_of_lt fun number hnumber => ?_, rfl⟩
  exact Nat.lt_of_succ_le (hleast hnumber)

theorem isLeast_of_continues (hcontinues : m.Continues k)
    (hother : (m.after k).step.1 ≠ .continued) : IsLeast m.endingSteps (k + 1) := by
  refine ⟨⟨Nat.succ_pos k, hother⟩, fun number hnumber => ?_⟩
  obtain ⟨hpositive, hending⟩ := hnumber
  refine Nat.le_of_not_lt fun hless => ?_
  exact hending (hcontinues (number - 1) (by omega))

theorem run_of_isLeast_halted (h : IsLeast m.endingSteps k) (hle : k ≤ n)
    (houtcome : m.outcomeAt k = .halted) : m.run n = (.ok k, m.after k) := by
  obtain ⟨i, rfl, hcontinues, hstep⟩ := exists_of_isLeast h
  have hgranted : ∀ n', some n = some n' → i < n' := by
    rintro _ ⟨⟩
    exact hle
  exact run_of_ends (.halted hgranted hcontinues (hstep.symm.trans houtcome))

theorem run_of_isLeast_stopped (h : IsLeast m.endingSteps k) (hle : k ≤ n)
    (houtcome : m.outcomeAt k = .stopped stop) : m.run n = (.error stop, m.after k) := by
  obtain ⟨i, rfl, hcontinues, hstep⟩ := exists_of_isLeast h
  have hgranted : ∀ n', some n = some n' → i < n' := by
    rintro _ ⟨⟩
    exact hle
  exact run_of_ends (.stopped hgranted hcontinues (hstep.symm.trans houtcome))

/-! ## Runs in two parts -/

/-- A run that the limit has ended has made as many steps as the limit grants, and all of them
continue. -/
theorem Ends.of_stepLimit {steps : Nat} (h : m.Ends (some n) (.error (.stepLimit steps)) last) :
    steps = n ∧ m.Continues n ∧ last = m.after n := by
  generalize hending : (.error (.stepLimit steps) : Except Stop Nat) = ending at h
  cases h with
  | halted => contradiction
  | stopped granted continues stops =>
    -- A step stops for a cause of its own.
    obtain ⟨cause, rfl, -⟩ := exists_cause_of_stopped stops
    cases hending
  | limited continues =>
    cases hending
    exact ⟨rfl, continues, rfl⟩

/-- The steps made before a run only add to the count. -/
theorem runFrom_count (granted made : Nat) (m : Machine) :
    m.runFrom granted made = (countFrom made (m.run granted).1, (m.run granted).2) := by
  have hends := ends_run granted m
  generalize (m.run granted).1 = ending at hends ⊢
  generalize (m.run granted).2 = last at hends ⊢
  cases hends with
  | halted hgranted continues halt =>
    exact runFrom_of_halted made continues halt (hgranted granted rfl)
  | stopped hgranted continues stops =>
    obtain ⟨cause, rfl, -⟩ := exists_cause_of_stopped stops
    exact runFrom_of_stopped made continues stops (hgranted granted rfl)
  | limited continues => exact runFrom_of_continues made continues

/-- A run that has been cut short, taken up again. -/
theorem run_add {steps : Nat} (h : m.run a = (.error (.stepLimit steps), between)) (b : Nat) :
    m.run (a + b) = (countFrom a (between.run b).1, (between.run b).2) := by
  obtain ⟨-, hcontinues, rfl⟩ := (run_eq_iff.mp h).of_stepLimit
  calc m.run (a + b) = (m.after a).runFrom b (0 + a) := runFrom_add b 0 hcontinues
    _ = (m.after a).runFrom b a := by rw [Nat.zero_add]
    _ = _ := runFrom_count b a (m.after a)

/-! ## Where a run stops -/

/-- A run that a step has stopped names the place of that step's instruction, which is where the
steps before it have led. -/
theorem exists_place_of_run {place : FarPointer} {cause : Cause}
    (h : m.run n = (.error (.gaveUp place cause), last)) :
    ∃ k, k ≤ n ∧ IsLeast m.endingSteps k ∧ last = m.after k
      ∧ place = (m.after (k - 1)).registers.codePointer := by
  have hends := run_eq_iff.mp h
  generalize hending : (.error (.gaveUp place cause) : Except Stop Nat) = ending at hends
  cases hends with
  | halted => cases hending
  | limited => cases hending
  | @stopped _ k stop granted continues stops =>
    cases hending
    refine ⟨k + 1, granted n rfl, isLeast_of_continues continues ?_, rfl, ?_⟩
    · rw [stops]
      exact Outcome.noConfusion
    · obtain ⟨cause', hplace, -⟩ := exists_cause_of_stopped stops
      cases hplace
      rfl

/-- A run is its steps, up to the first that does not continue or up to the limit, and can be split
anywhere; what stops it names the place of the step that did; and latches that hold the modifiers
of the step before make no difference to any of this. -/
theorem run_is_steps :
    (∀ (m : Machine) (n k : Nat), IsLeast m.endingSteps k → k ≤ n →
        (m.outcomeAt k = .halted → m.run n = (.ok k, m.after k))
          ∧ ∀ stop, m.outcomeAt k = .stopped stop → m.run n = (.error stop, m.after k))
      ∧ (∀ (m : Machine) (n : Nat), (∀ k ∈ m.endingSteps, n < k) →
          m.run n = (.error (.stepLimit n), m.after n))
      ∧ (∀ (m between : Machine) (a b steps : Nat),
          m.run a = (.error (.stepLimit steps), between) →
          m.run (a + b) = (countFrom a (between.run b).1, (between.run b).2))
      ∧ (∀ (m : Machine) (stop : Stop), m.step.1 = .stopped stop →
          ∃ cause, stop = .gaveUp m.registers.codePointer cause)
      ∧ (∀ (m last : Machine) (n : Nat) (place : FarPointer) (cause : Cause),
          m.run n = (.error (.gaveUp place cause), last) →
          ∃ k, k ≤ n ∧ IsLeast m.endingSteps k ∧ last = m.after k
            ∧ place = (m.after (k - 1)).registers.codePointer)
      ∧ (∀ l l' : LatchedMachine, l.machine = l'.machine → l.step = l'.step)
      ∧ (∀ (l : LatchedMachine) (n : Nat),
          (l.run n).1 = (l.machine.run n).1 ∧ (l.run n).2.machine = (l.machine.run n).2) := by
  refine ⟨fun m n k hleast hle => ⟨?_, fun stop => ?_⟩, fun m n hbehind => ?_, ?_, ?_, ?_, ?_, ?_⟩
  · exact run_of_isLeast_halted hleast hle
  · exact run_of_isLeast_stopped hleast hle
  · exact run_of_ends (.limited (continues_of_lt hbehind))
  · intro m between a b steps hcut
    exact run_add hcut b
  · intro m stop hstop
    obtain ⟨cause, hplace, -⟩ := exists_cause_of_stopped hstop
    exact ⟨cause, hplace⟩
  · intro m last n place cause hrun
    exact exists_place_of_run hrun
  · intro l l' hmachine
    exact LatchedMachine.step_congr hmachine
  · intro l n
    exact LatchedMachine.runFrom_eq n 0 l

/-- A machine with the given bytes in front of it. -/
def facing (code : List Byte) : Machine :=
  ⟨Registers.initial, ((PagedMemory.empty.allocate pageSize).poke 0 0 code).mapPages 0 1 0
    Permissions.all⟩

/-- `es nop` and `hlt`: a step that continues and leaves an override behind, and one that halts. -/
def halting : Machine := facing [0x26, 0x90, 0xf4]

/-- `es nop` and an undefined opcode. -/
def failing : Machine := facing [0x26, 0x90, 0x0f]

theorem isLeast_two (hfirst : m.step.1 = .continued) (hother : m.step.2.step.1 ≠ .continued) :
    IsLeast m.endingSteps 2 := by
  refine isLeast_of_continues (continues_succ_iff.mpr ⟨hfirst, fun i hi => ?_⟩) hother
  exact absurd hi (Nat.not_lt_zero i)

theorem run_is_steps_behind_override :
    halting.run 5 = (.ok 2, halting.after 2)
      ∧ halting.run 1 = (.error (.stepLimit 1), halting.after 1)
      ∧ halting.run (1 + 4)
        = (countFrom 1 ((halting.after 1).run 4).1, ((halting.after 1).run 4).2)
      ∧ failing.run 5 = (.error (.gaveUp ⟨0, 2⟩ (.undefinedOpcode 0x0f)), failing.after 2)
      ∧ (∃ k, k ≤ 5 ∧ IsLeast failing.endingSteps k ∧ failing.after 2 = failing.after k
        ∧ ⟨0, 2⟩ = (failing.after (k - 1)).registers.codePointer)
      ∧ (LatchedMachine.mk halting ⟨some 0x1000, some .whileEqual⟩).step
        = (LatchedMachine.mk halting Modifiers.none).step := by
  obtain ⟨hending, hlimited, hsplit, -, hplace, hlatches, -⟩ := run_is_steps
  have hhalting : IsLeast halting.endingSteps 2 :=
    isLeast_two (by decide +kernel) (by decide +kernel)
  have hfailing : IsLeast failing.endingSteps 2 :=
    isLeast_two (by decide +kernel) (by decide +kernel)
  have hhalts := (hending halting 5 2 hhalting (by decide)).1 (by decide +kernel)
  have hcut : halting.run 1 = (.error (.stepLimit 1), halting.after 1) :=
    hlimited halting 1 fun k hk => hhalting.2 hk
  have hstops := (hending failing 5 2 hfailing (by decide)).2
    (.gaveUp ⟨0, 2⟩ (.undefinedOpcode 0x0f)) (by decide +kernel)
  exact ⟨hhalts, hcut, hsplit _ _ 1 4 1 hcut, hstops, hplace _ _ _ _ _ hstops,
    hlatches _ _ rfl⟩

end Machine

end CmStream
