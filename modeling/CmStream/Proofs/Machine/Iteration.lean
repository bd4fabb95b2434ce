import CmStream.Machine.Step

/-!
# Runs as iterated steps

A run is nothing but steps, one after the other, up to the first that does not continue or up to
the limit. `Machine.after` is the machine after a number of steps and `Machine.Ends` says how a
run ends, with a limit or with none; `run_eq_iff` is the link to the function that runs.
-/

namespace CmStream

namespace Machine

variable {m last : Machine} {k n : Nat} {limit : Option Nat} {stop : Stop}
  {ending : Except Stop Nat} {outcome : Outcome}

/-- The machine after `n` steps, whatever each of them has led to. -/
def after : (n : Nat) → Machine → Machine
  | 0, m => m
  | n + 1, m => after n m.step.2

/-- Each of the next `n` steps continues. -/
def Continues (n : Nat) (m : Machine) : Prop := ∀ i, i < n → (m.after i).step.1 = .continued

theorem after_zero (m : Machine) : m.after 0 = m := rfl

theorem after_succ (n : Nat) (m : Machine) : m.after (n + 1) = (m.after n).step.2 := by
  induction n generalizing m with
  | zero => rfl
  | succ n ih => exact ih m.step.2

theorem after_add (n k : Nat) (m : Machine) : m.after (n + k) = (m.after n).after k := by
  induction k with
  | zero => rfl
  | succ k ih => rw [← Nat.add_assoc, after_succ, after_succ, ih]

theorem continues_succ_iff :
    m.Continues (n + 1) ↔ m.step.1 = .continued ∧ m.step.2.Continues n := by
  constructor
  · intro h
    refine ⟨h 0 (Nat.succ_pos n), fun i hi => ?_⟩
    exact h (i + 1) (Nat.succ_lt_succ hi)
  · rintro ⟨hfirst, hrest⟩ i hi
    cases i with
    | zero => exact hfirst
    | succ i => exact hrest i (Nat.lt_of_succ_lt_succ hi)

/-- Either the next `n` steps continue, or one of them is the first that does not. -/
theorem continues_or_exists_first (n : Nat) (m : Machine) :
    m.Continues n ∨ ∃ k, k < n ∧ m.Continues k ∧ (m.after k).step.1 ≠ .continued := by
  induction n with
  | zero => exact .inl fun i hi => absurd hi (Nat.not_lt_zero i)
  | succ n ih =>
    rcases ih with hcontinues | ⟨k, hk, hcontinues, hother⟩
    · -- Only the last of the steps is new.
      by_cases hlast : (m.after n).step.1 = .continued
      · refine .inl fun i hi => ?_
        rcases Nat.lt_succ_iff_lt_or_eq.mp hi with hi | rfl
        · exact hcontinues i hi
        · exact hlast
      · exact .inr ⟨n, Nat.lt_succ_self n, hcontinues, hlast⟩
    · exact .inr ⟨k, Nat.lt_succ_of_lt hk, hcontinues, hother⟩

/-! ## The first step that does not continue decides a run -/

theorem step_eq (h : m.step.1 = outcome) : m.step = (outcome, m.step.2) := by
  rw [← h]

/-- A step stops for a cause that its instruction gives, and names the place of the instruction. -/
theorem exists_cause_of_stopped (h : m.step.1 = .stopped stop) :
    ∃ cause, stop = .gaveUp m.registers.codePointer cause
      ∧ (Instruction.fetchAndPerform.run m).1 = .error cause := by
  unfold step at h
  split at h
  case h_1 => contradiction
  case h_2 => contradiction
  case h_3 cause after hrun =>
    cases h
    exact ⟨cause, rfl, by rw [hrun]⟩

/-- Steps that continue only take from the number granted and add to the number made. -/
theorem runFrom_add (granted made : Nat) (hcontinues : m.Continues k) :
    m.runFrom (k + granted) made = (m.after k).runFrom granted (made + k) := by
  induction k generalizing m made with
  | zero =>
    rw [Nat.zero_add]
    rfl
  | succ k ih =>
    obtain ⟨hfirst, hrest⟩ := continues_succ_iff.mp hcontinues
    rw [Nat.add_right_comm, runFrom, step_eq hfirst]
    show m.step.2.runFrom (k + granted) (made + 1) = _
    rw [ih (made + 1) hrest, Nat.add_right_comm, Nat.add_assoc made]
    rfl

theorem runFrom_of_halted (made : Nat) (hcontinues : m.Continues k)
    (hhalt : (m.after k).step.1 = .halted) (hk : k < n) :
    m.runFrom n made = (.ok (made + k + 1), m.after (k + 1)) := by
  obtain ⟨granted, rfl⟩ := Nat.exists_eq_add_of_lt hk
  rw [Nat.add_assoc, runFrom_add _ _ hcontinues, runFrom, step_eq hhalt, after_succ]

theorem runFrom_of_stopped (made : Nat) (hcontinues : m.Continues k)
    (hstop : (m.after k).step.1 = .stopped stop) (hk : k < n) :
    m.runFrom n made = (.error stop, m.after (k + 1)) := by
  obtain ⟨granted, rfl⟩ := Nat.exists_eq_add_of_lt hk
  rw [Nat.add_assoc, runFrom_add _ _ hcontinues, runFrom, step_eq hstop, after_succ]

theorem runFrom_of_continues (made : Nat) (h : m.Continues n) :
    m.runFrom n made = (.error (.stepLimit (made + n)), m.after n) :=
  runFrom_add 0 made h

/-! ## How runs end -/

/-- How the run of a machine ends under a limit, or under none: with a halting step, with a step
that stops it, or with the limit, if as many steps as that have been made and all continue. -/
inductive Ends (m : Machine) : Option Nat → Except Stop Nat → Machine → Prop
  | halted {limit : Option Nat} {k : Nat} (granted : ∀ n, limit = some n → k < n)
      (continues : m.Continues k) (halt : (m.after k).step.1 = .halted) :
      Ends m limit (.ok (k + 1)) (m.after (k + 1))
  | stopped {limit : Option Nat} {k : Nat} {stop : Stop}
      (granted : ∀ n, limit = some n → k < n) (continues : m.Continues k)
      (stops : (m.after k).step.1 = .stopped stop) :
      Ends m limit (.error stop) (m.after (k + 1))
  | limited {n : Nat} (continues : m.Continues n) :
      Ends m (some n) (.error (.stepLimit n)) (m.after n)

theorem run_of_ends (h : m.Ends (some n) ending last) : m.run n = (ending, last) := by
  unfold run
  cases h with
  | halted granted continues halt =>
    rw [runFrom_of_halted 0 continues halt (granted n rfl), Nat.zero_add]
  | stopped granted continues stops => rw [runFrom_of_stopped 0 continues stops (granted n rfl)]
  | limited continues => rw [runFrom_of_continues 0 continues, Nat.zero_add]

theorem ends_run (n : Nat) (m : Machine) : m.Ends (some n) (m.run n).1 (m.run n).2 := by
  have hends : ∃ ending last, m.Ends (some n) ending last := by
    rcases continues_or_exists_first n m with hcontinues | ⟨k, hk, hcontinues, hother⟩
    · exact ⟨_, _, .limited hcontinues⟩
    · have hgranted : ∀ n', some n = some n' → k < n' := by
        rintro n' ⟨⟩
        exact hk
      cases houtcome : (m.after k).step.1 with
      | continued => exact absurd houtcome hother
      | halted => exact ⟨_, _, .halted hgranted hcontinues houtcome⟩
      | stopped stop => exact ⟨_, _, .stopped hgranted hcontinues houtcome⟩
  obtain ⟨ending, last, h⟩ := hends
  rw [run_of_ends h]
  exact h

theorem run_eq_iff : m.run n = (ending, last) ↔ m.Ends (some n) ending last := by
  constructor
  · intro h
    have hends := ends_run n m
    rw [h] at hends
    exact hends
  · exact run_of_ends

/-! ## More steps to spend -/

/-- An ending that the limit has not brought about stays the same under a larger limit and
without one. -/
theorem Ends.mono {larger : Option Nat} (h : m.Ends (some n) ending last)
    (hown : ∀ steps, ending ≠ .error (.stepLimit steps)) (hle : ∀ n', larger = some n' → n ≤ n') :
    m.Ends larger ending last := by
  cases h with
  | halted granted continues halt =>
    exact .halted (fun n' hn' => Nat.lt_of_lt_of_le (granted n rfl) (hle n' hn')) continues halt
  | stopped granted continues stops =>
    exact .stopped (fun n' hn' => Nat.lt_of_lt_of_le (granted n rfl) (hle n' hn')) continues stops
  | limited continues => exact absurd rfl (hown n)

/-- A run without a limit that ends, ends so under every limit that is large enough. -/
theorem Ends.exists_limit (h : m.Ends none ending last) :
    ∃ n, ∀ n', n ≤ n' → m.Ends (some n') ending last := by
  cases h with
  | @halted _ k granted continues halt =>
    refine ⟨k + 1, fun n' hn' => .halted ?_ continues halt⟩
    rintro _ ⟨⟩
    exact hn'
  | @stopped _ k _ granted continues stops =>
    refine ⟨k + 1, fun n' hn' => .stopped ?_ continues stops⟩
    rintro _ ⟨⟩
    exact hn'

/-- A run without a limit does not end with one. -/
theorem Ends.ne_stepLimit (h : m.Ends none ending last) (steps : Nat) :
    ending ≠ .error (.stepLimit steps) := by
  intro hlimit
  cases h with
  | halted => contradiction
  | stopped granted continues stops =>
    -- What a step stops for is its own, and a limit is not.
    obtain ⟨cause, rfl, -⟩ := exists_cause_of_stopped stops
    cases hlimit

/-- The machine that a run leaves is the machine after some number of steps. -/
theorem Ends.exists_after (h : m.Ends limit ending last) : ∃ k, last = m.after k := by
  cases h with
  | halted => exact ⟨_, rfl⟩
  | stopped => exact ⟨_, rfl⟩
  | limited => exact ⟨_, rfl⟩

/-! ## Paths -/

/-- A number of steps that all continue lead from one machine to another. -/
structure Reaches (n : Nat) (m m' : Machine) : Prop where
  continues : m.Continues n
  arrives : m.after n = m'

namespace Reaches

variable {m' m'' : Machine}

theorem refl (m : Machine) : Reaches 0 m m :=
  ⟨fun i hi => absurd hi (Nat.not_lt_zero i), rfl⟩

theorem single (h : m.step = (.continued, m')) : Reaches 1 m m' := by
  refine ⟨continues_succ_iff.mpr ⟨?_, ?_⟩, ?_⟩
  · rw [h]
  · intro i hi
    exact absurd hi (Nat.not_lt_zero i)
  · show m.step.2 = m'
    rw [h]

theorem trans (h : Reaches n m m') (h' : Reaches k m' m'') : Reaches (n + k) m m'' := by
  refine ⟨fun i hi => ?_, ?_⟩
  · rcases Nat.lt_or_ge i n with hlt | hge
    · exact h.continues i hlt
    · obtain ⟨j, rfl⟩ := Nat.exists_eq_add_of_le hge
      rw [after_add, h.arrives]
      exact h'.continues j (Nat.lt_of_add_lt_add_left hi)
  · rw [after_add, h.arrives, h'.arrives]

/-- A path to a machine that halts is a run that ends there. -/
theorem ends (h : Reaches k m m') (hhalt : m'.step = (.halted, last))
    (hgranted : ∀ n, limit = some n → k < n) : m.Ends limit (.ok (k + 1)) last := by
  have hstep : (m.after k).step = (.halted, last) := by
    rw [h.arrives, hhalt]
  have hlast : last = m.after (k + 1) := by
    rw [after_succ, hstep]
  rw [hlast]
  exact .halted hgranted h.continues (by rw [hstep])

end Reaches

end Machine

end CmStream
