import CmStream.Proofs.Machine.Iteration

/-!
# The trace of a run

A run begins a step if every step before it continues and the limit grants one more. The trace of
a run has one entry for every step begun, in order: the registers as the steps before it have left
them. So its length is the number of steps that a run which halts says it has made, and the limit
where that is what has ended the run.
-/

namespace CmStream

namespace Machine

variable {m last : Machine} {k n : Nat} {limit : Option Nat} {ending : Except Stop Nat}

/-- The run begins another step behind its first `i` steps. -/
def Begins (limit : Option Nat) (m : Machine) (i : Nat) : Prop :=
  m.Continues i ∧ ∀ n, limit = some n → i < n

/-- The run ends so, and has begun `k` steps by then. -/
structure EndsAfter (limit : Option Nat) (m : Machine) (k : Nat) (ending : Except Stop Nat) :
    Prop where
  ends : m.Ends limit ending (m.after k)
  begun : ∀ i, i < k ↔ m.Begins limit i
  halted : ∀ steps, ending = .ok steps → k = steps
  cut : ∀ steps, ending = .error (.stepLimit steps) → k = steps

/-! ## The steps begun -/

theorem Continues.of_le (h : m.Continues n) (hle : k ≤ n) : m.Continues k :=
  fun i hi => h i (Nat.lt_of_lt_of_le hi hle)

/-- The first step that does not continue is the last one begun. -/
theorem lt_succ_iff_begins (continues : m.Continues k) (hended : (m.after k).step.1 ≠ .continued)
    (granted : ∀ n, limit = some n → k < n) (i : Nat) : i < k + 1 ↔ m.Begins limit i := by
  constructor
  · intro hi
    have hle := Nat.lt_succ_iff.mp hi
    exact ⟨continues.of_le hle, fun n hn => Nat.lt_of_le_of_lt hle (granted n hn)⟩
  · rintro ⟨hcontinues, -⟩
    rcases Nat.lt_or_ge i (k + 1) with hi | hi
    · exact hi
    · exact absurd (hcontinues k hi) hended

theorem endsAfter_of_halted (granted : ∀ n, limit = some n → k < n) (continues : m.Continues k)
    (halt : (m.after k).step.1 = .halted) : EndsAfter limit m (k + 1) (.ok (k + 1)) where
  ends := .halted granted continues halt
  begun := lt_succ_iff_begins continues (by rw [halt]; exact nofun) granted
  halted := by
    rintro _ ⟨⟩
    rfl
  cut := by
    rintro _ ⟨⟩

theorem endsAfter_of_stopped {stop : Stop} (granted : ∀ n, limit = some n → k < n)
    (continues : m.Continues k) (stops : (m.after k).step.1 = .stopped stop) :
    EndsAfter limit m (k + 1) (.error stop) where
  ends := .stopped granted continues stops
  begun := lt_succ_iff_begins continues (by rw [stops]; exact nofun) granted
  halted := by
    rintro _ ⟨⟩
  cut := by
    -- What a step stops for is its own, and a limit is not.
    rintro steps ⟨⟩
    obtain ⟨cause, hstop, -⟩ := exists_cause_of_stopped stops
    cases hstop

theorem endsAfter_of_continues (continues : m.Continues n) :
    EndsAfter (some n) m n (.error (.stepLimit n)) where
  ends := .limited continues
  begun := by
    intro i
    constructor
    · intro hi
      refine ⟨continues.of_le (Nat.le_of_lt hi), ?_⟩
      rintro _ ⟨⟩
      exact hi
    · rintro ⟨-, hgranted⟩
      exact hgranted n rfl
  halted := by
    rintro _ ⟨⟩
  cut := by
    rintro _ ⟨⟩
    rfl

/-! ## The registers before each step -/

theorem traceOnto_eq (seen : List Registers) (n : Nat) (m : Machine) :
    traceOnto seen n m = (m.trace n).reverse ++ seen := by
  unfold trace
  rw [List.reverse_reverse]
  induction n generalizing seen m with
  | zero => rfl
  | succ n ih =>
    unfold traceOnto
    dsimp only
    split
    case h_1 after _ => rw [ih, ih [m.registers], List.append_assoc, List.singleton_append]
    case h_2 => rfl

theorem trace_of_continued (n : Nat) (h : m.step.1 = .continued) :
    m.trace (n + 1) = m.registers :: m.step.2.trace n := by
  rw [trace, traceOnto, step_eq h]
  dsimp only
  rw [traceOnto_eq, List.reverse_append, List.reverse_reverse]
  rfl

theorem trace_of_ended (n : Nat) (h : m.step.1 ≠ .continued) :
    m.trace (n + 1) = [m.registers] := by
  rw [trace, traceOnto]
  split
  case h_1 after hstep => exact absurd (congrArg Prod.fst hstep) h
  case h_2 => rfl

/-- The registers before each of the first steps, whatever each of them leads to. -/
def registersBefore (k : Nat) (m : Machine) : List Registers :=
  (List.range k).map fun i => (m.after i).registers

theorem registersBefore_succ (k : Nat) (m : Machine) :
    m.registersBefore (k + 1) = m.registers :: m.step.2.registersBefore k := by
  unfold registersBefore
  rw [List.range_succ_eq_map, List.map_cons, List.map_map]
  rfl

/-- Steps that continue are all in the trace, in front of what follows them. -/
theorem trace_add (n : Nat) (hcontinues : m.Continues k) :
    m.trace (k + n) = m.registersBefore k ++ (m.after k).trace n := by
  -- The induction takes the steps from the front, as the trace does.
  induction k generalizing m with
  | zero =>
    rw [Nat.zero_add]
    rfl
  | succ k ih =>
    obtain ⟨hfirst, hrest⟩ := continues_succ_iff.mp hcontinues
    rw [Nat.add_right_comm, trace_of_continued _ hfirst, ih hrest, registersBefore_succ]
    rfl

theorem registersBefore_concat (k : Nat) (m : Machine) :
    m.registersBefore (k + 1) = m.registersBefore k ++ [(m.after k).registers] := by
  unfold registersBefore
  rw [List.range_succ, List.map_append]
  rfl

theorem trace_of_continues_of_ended (hcontinues : m.Continues k)
    (hended : (m.after k).step.1 ≠ .continued) (hk : k < n) :
    m.trace n = m.registersBefore (k + 1) := by
  obtain ⟨granted, rfl⟩ := Nat.exists_eq_add_of_lt hk
  rw [Nat.add_assoc, trace_add _ hcontinues, trace_of_ended _ hended, registersBefore_concat]

theorem trace_of_continues (hcontinues : m.Continues n) : m.trace n = m.registersBefore n := by
  have htrace := trace_add 0 hcontinues
  rw [Nat.add_zero] at htrace
  exact htrace.trans (List.append_nil _)

/-! ## Runs -/

/-- A run under a limit ends behind the steps that are in its trace. If the limit has not ended it,
the same holds of it as a run without one. -/
theorem Ends.exists_endsAfter (h : m.Ends (some n) ending last)
    (hlimit : ∀ n', limit = some n' → n' = n)
    (hown : limit = none → ∀ steps, ending ≠ .error (.stepLimit steps)) :
    ∃ k, EndsAfter limit m k ending ∧ last = m.after k ∧ m.trace n = m.registersBefore k := by
  cases h with
  | @halted _ k granted continues halt =>
    have hk := granted n rfl
    exact ⟨k + 1, endsAfter_of_halted (fun n' hn' => hlimit n' hn' ▸ hk) continues halt, rfl,
      trace_of_continues_of_ended continues (by rw [halt]; exact nofun) hk⟩
  | @stopped _ k stop granted continues stops =>
    have hk := granted n rfl
    exact ⟨k + 1, endsAfter_of_stopped (fun n' hn' => hlimit n' hn' ▸ hk) continues stops, rfl,
      trace_of_continues_of_ended continues (by rw [stops]; exact nofun) hk⟩
  | limited continues =>
    -- The limit has ended the run, so it is the one that was asked for.
    cases limit with
    | none => exact absurd rfl (hown rfl n)
    | some n' =>
      obtain rfl := hlimit n' rfl
      exact ⟨n', endsAfter_of_continues continues, rfl, trace_of_continues continues⟩

/-- A run that the limit has not ended has a last step. -/
theorem Ends.exists_last_step (h : m.Ends (some n) ending last)
    (hown : ∀ steps, ending ≠ .error (.stepLimit steps)) :
    ∃ k, k < n ∧ m.Continues k ∧ (m.after k).step.1 ≠ .continued := by
  cases h with
  | @halted _ k granted continues halt =>
    exact ⟨k, granted n rfl, continues, by rw [halt]; exact nofun⟩
  | @stopped _ k stop granted continues stops =>
    exact ⟨k, granted n rfl, continues, by rw [stops]; exact nofun⟩
  | limited continues => exact absurd rfl (hown n)

/-- The trace of such a run is the same under every larger limit. -/
theorem Ends.trace_eq_of_le {larger : Nat} (h : m.Ends (some n) ending last)
    (hown : ∀ steps, ending ≠ .error (.stepLimit steps)) (hle : n ≤ larger) :
    m.trace larger = m.trace n := by
  obtain ⟨k, hk, hcontinues, hended⟩ := h.exists_last_step hown
  rw [trace_of_continues_of_ended hcontinues hended hk,
    trace_of_continues_of_ended hcontinues hended (Nat.lt_of_lt_of_le hk hle)]

end Machine

end CmStream
