import CmStream.Proofs.Machine.Iteration
import CmStream.Unlimited

/-!
# Runs under a limit or under none

Under a limit the loop always ends, with what the run under that limit comes to. Under none it
gives something exactly if the run ends, and then what the run comes to.
-/

namespace CmStream

namespace Machine

variable {m last : Machine} {n : Nat} {limit : Option Nat} {ending : Except Stop Nat}

/-! ## One round -/

theorem runFrom_of_continued (granted made : Nat) (h : m.step.1 = .continued) :
    m.runFrom (granted + 1) made = m.step.2.runFrom granted (made + 1) := by
  rw [runFrom, step_eq h]

theorem runFrom_of_ended (granted made : Nat) (h : m.step.1 ≠ .continued) :
    m.runFrom (granted + 1) made = (m.step.1.ending (made + 1), m.step.2) := by
  unfold runFrom
  cases houtcome : m.step.1 with
  | continued => contradiction
  | halted =>
    rw [step_eq houtcome]
    rfl
  | stopped stop =>
    rw [step_eq houtcome]
    rfl

/-- A step stops for a cause of its own. -/
theorem ending_step_ne_stepLimit (made steps : Nat) (m : Machine) :
    m.step.1.ending made ≠ .error (.stepLimit steps) := by
  cases houtcome : m.step.1 with
  | stopped stop =>
    obtain ⟨cause, rfl, -⟩ := exists_cause_of_stopped houtcome
    rintro ⟨⟩
  | _ => rintro ⟨⟩

section Round

variable {made : Nat} (hleft : limit.any (· ≤ made) = false)

include hleft

theorem loop_of_continued (h : m.step.1 = .continued) :
    loop limit made m = loop limit (made + 1) m.step.2 := by
  rw [loop, hleft, if_neg Bool.false_ne_true, if_pos h]

theorem loop_of_ended (h : m.step.1 ≠ .continued) :
    loop limit made m = some (m.step.1.ending (made + 1), m.step.2) := by
  rw [loop, hleft, if_neg Bool.false_ne_true, if_neg h]

end Round

/-! ## Under a limit -/

/-- The loop goes on to the limit, as many steps as are still granted. -/
theorem loop_some (granted made : Nat) (m : Machine) :
    loop (some (made + granted)) made m = some (m.runFrom granted made) := by
  induction granted generalizing made m with
  | zero =>
    rw [Nat.add_zero, loop, Option.any_some, decide_eq_true (Nat.le_refl made), if_pos rfl]
    rfl
  | succ granted ih =>
    have hleft : (some (made + (granted + 1))).any (· ≤ made) = false := by
      rw [Option.any_some, decide_eq_false_iff_not]
      omega
    have hcount : made + (granted + 1) = made + 1 + granted := by omega
    by_cases hcontinued : m.step.1 = .continued
    · rw [loop_of_continued hleft hcontinued, runFrom_of_continued granted made hcontinued, hcount,
        ih]
    · rw [loop_of_ended hleft hcontinued, runFrom_of_ended granted made hcontinued]

theorem runWith_some (n : Nat) (m : Machine) : m.runWith (some n) = some (m.run n) := by
  have hloop := loop_some n 0 m
  rw [Nat.zero_add] at hloop
  exact hloop

/-! ## Under none -/

/-- What the loop gives without a limit is the ending of a run whose limit is not reached. -/
theorem exists_runFrom_of_loop (made : Nat) (m : Machine) (ended : Except Stop Nat × Machine)
    (h : loop none made m = some ended) :
    ∃ granted, m.runFrom granted made = ended
      ∧ ∀ steps, ended.1 ≠ .error (.stepLimit steps) := by
  -- The loop is the least function that satisfies its equation, so what holds of one round of a
  -- function of which it holds already, holds of the loop.
  refine loop.partial_correctness none
    (fun made m ended => ∃ granted, m.runFrom granted made = ended
      ∧ ∀ steps, ended.1 ≠ .error (.stepLimit steps)) ?_ made m ended h
  intro loop ih made m ended h
  rw [Option.any_none, if_neg Bool.false_ne_true] at h
  by_cases hcontinued : m.step.1 = .continued
  · rw [if_pos hcontinued] at h
    obtain ⟨granted, hrun, hown⟩ := ih (made + 1) m.step.2 ended h
    exact ⟨granted + 1, (runFrom_of_continued granted made hcontinued).trans hrun, hown⟩
  · rw [if_neg hcontinued] at h
    cases h
    exact ⟨1, runFrom_of_ended 0 made hcontinued, fun steps =>
      ending_step_ne_stepLimit (made + 1) steps m⟩

theorem loop_none_of_continues {k : Nat} (made : Nat) (hcontinues : m.Continues k) :
    loop none made m = loop none (made + k) (m.after k) := by
  induction k generalizing made m with
  | zero => rfl
  | succ k ih =>
    obtain ⟨hfirst, hrest⟩ := continues_succ_iff.mp hcontinues
    rw [loop_of_continued rfl hfirst, ih (made + 1) hrest, Nat.add_assoc, Nat.add_comm 1]
    rfl

theorem runWith_none_of_ends (h : m.Ends none ending last) :
    m.runWith none = some (ending, last) := by
  unfold runWith
  cases h with
  | halted granted continues halt =>
    rw [loop_none_of_continues 0 continues, loop_of_ended rfl (by rw [halt]; exact nofun), halt,
      after_succ, Nat.zero_add]
    rfl
  | stopped granted continues stops =>
    rw [loop_none_of_continues 0 continues, loop_of_ended rfl (by rw [stops]; exact nofun), stops,
      after_succ]
    rfl

/-- A run gives something if and only if it ends, and then how it ends. -/
theorem runWith_eq_some_iff :
    m.runWith limit = some (ending, last) ↔ m.Ends limit ending last := by
  cases limit with
  | some n => rw [runWith_some, Option.some_inj, run_eq_iff]
  | none =>
    constructor
    · intro h
      obtain ⟨granted, hrun, hown⟩ := exists_runFrom_of_loop 0 m _ h
      exact (run_eq_iff.mp hrun).mono hown fun n' hn' => by cases hn'
    · exact runWith_none_of_ends

end Machine

end CmStream
