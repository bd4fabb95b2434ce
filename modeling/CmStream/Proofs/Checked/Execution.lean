import CmStream.Checked.Execution
import CmStream.Proofs.Checked.Instructions
import CmStream.Proofs.Checked.Memory
import CmStream.Proofs.Machine.Confinement

/-!
# Steps and runs are defined

On sound memory every microprogram whatsoever is defined: its loads and stores find their bytes, and
memory stays sound, because no store changes its shape. So is every step of a machine, whatever
lies where it fetches its instruction, and every run with a limit that is a number of 64 bits.
-/

namespace CmStream

namespace Checked

variable {α : Type} {m : Machine}

/-- Every load and store of a microprogram finds its byte, whatever the microprogram does. -/
theorem runEffects_eq_some (p : Microprogram α) (h : Sound m.memory) :
    runEffects p m = some (p.run m) := by
  induction p generalizing m with
  | done | raise => rfl
  | load access reads place next ih =>
    simp only [runEffects, linear_eq_some, run_read h, Option.bind_eq_bind, Option.bind_some,
      Microprogram.run]
    cases m.memory.read access place.linear with
    | ok byte => exact ih byte h
    | error fault => rfl
  | store place value next ih =>
    simp only [runEffects, linear_eq_some, run_write h, Option.bind_eq_bind, Option.bind_some,
      Microprogram.run, PagedMemory.write]
    cases m.memory.locate .write place.linear with
    | ok slot => exact ih () (h.of_sameShape (PagedMemory.sameShape_setByteAt _ slot value))
    | error fault => rfl
  | inspect next ih => exact ih m.registers h
  | replace registers next ih => exact ih () h

/-- A microprogram with nothing to check in it comes to what it comes to without checks. -/
theorem runProgram_lift (p : Microprogram α) (h : Sound m.memory) :
    runProgram (OptionT.lift p) m = some (p.run m) := by
  have hrun : runEffects (OptionT.lift p).run m
      = some ((p >>= fun value => pure (some value)).run m) :=
    runEffects_eq_some _ h
  unfold runProgram
  rw [hrun, Microprogram.run_bind]
  rcases p.run m with ⟨value | cause, after⟩
  · rfl
  · rfl

/-- A step is defined on sound memory, and is the step without checks. -/
theorem step_eq_some (h : Sound m.memory) : step m = some m.step := by
  unfold step Machine.step
  rw [fetchAndPerform_eq_lift, runProgram_lift _ h]
  rcases Instruction.fetchAndPerform.run m with ⟨cause | halts, after⟩
  · rfl
  · cases halts with
    | true => rfl
    | false => rfl

theorem Sound.step (h : Sound m.memory) : Sound m.step.2.memory := by
  rw [Machine.step_snd]
  exact h.of_sameShape (Microprogram.sameShape_run _ m)

/-- The count of the steps stays below a limit of 64 bits, so that it can always be raised. -/
theorem runFrom_eq_some {limit granted made : Nat} (h : Sound m.memory)
    (hlimit : limit < 1 <<< 64) (hmade : made + granted = limit) :
    runFrom limit (granted + 1) made m = some (m.runFrom granted made) := by
  induction granted generalizing made m with
  | zero =>
    have hover : limit ≤ made := by omega
    unfold runFrom Machine.runFrom
    rw [if_pos hover]
  | succ granted ih =>
    have hwithin : ¬ limit ≤ made := by omega
    have hcount : made + 1 < 1 <<< 64 := by omega
    have hlater : runFrom limit (granted + 1) (made + 1) m.step.2 = _ := ih h.step (by omega)
    unfold runFrom Machine.runFrom
    simp only [if_neg hwithin, Number.add_eq_some hcount, step_eq_some h, Option.bind_eq_bind,
      Option.bind_some]
    rcases hstep : m.step with ⟨_ | _ | stop, after⟩
    · rw [hstep] at hlater
      exact hlater
    · rfl
    · rfl

/-- A run is defined on sound memory, and ends as it does without checks. -/
theorem run_eq_some {limit : Nat} (h : Sound m.memory) (hlimit : limit < 1 <<< 64) :
    run limit m = some (m.run limit) :=
  runFrom_eq_some h hlimit (Nat.zero_add limit)

end Checked

end CmStream
