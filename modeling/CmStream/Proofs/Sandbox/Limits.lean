import CmStream.Proofs.Machine.Looping
import CmStream.Proofs.Routine.Copying
import Mathlib.Tactic.SplitIfs

/-!
# The limit can only cut a run short

Whatever is computed by running machines under a limit comes to the same under every larger limit
and under none, unless the limit has cut one of the runs short; and what it comes to under no limit
needs only so many steps. The limit is granted afresh to every block, so this is shown for one run
and then carried through everything that is built from runs.
-/

namespace CmStream

/-- What is computed under a limit is steady if it changes under a larger limit, or under none, only
where it has been cut short, and if whatever comes of it under none comes of it, not cut short,
under some limit too. -/
structure Steady {α : Type} (cut : α → Prop) (compute : Option Nat → Option α) : Prop where
  mono : ∀ {n : Nat} {larger : Option Nat} {value : α}, compute (some n) = some value →
    ¬ cut value → (∀ n', larger = some n' → n ≤ n') → compute larger = some value
  reached : ∀ {value : α}, compute none = some value →
    ∃ n, compute (some n) = some value ∧ ¬ cut value

namespace Steady

variable {α β : Type} {cut : α → Prop} {cut' : β → Prop} {compute : Option Nat → Option α}
  {value : α}

/-- Behind some limit nothing changes any more. -/
theorem exists_limit (h : Steady cut compute) (hvalue : compute none = some value) :
    ∃ n, ∀ n', n ≤ n' → compute (some n') = some value := by
  obtain ⟨n, hn, hwhole⟩ := h.reached hvalue
  refine ⟨n, fun n' hle => h.mono hn hwhole ?_⟩
  rintro _ ⟨⟩
  exact hle

theorem const (hwhole : ¬ cut value) : Steady cut fun _ => some value where
  mono hvalue _ _ := hvalue
  reached hvalue := ⟨0, hvalue, by
    cases hvalue
    exact hwhole⟩

/-- One computation behind another: both are given the same limit, and one that is cut short cuts
the whole short. -/
theorem bind {next : α → Option Nat → Option β} (h : Steady cut compute)
    (hnext : ∀ value, ¬ cut value → Steady cut' (next value))
    (hcut : ∀ value limit result, cut value → next value limit = some result → cut' result) :
    Steady cut' fun limit => (compute limit).bind fun value => next value limit := by
  refine ⟨fun {n larger result} hresult hwhole hle => ?_, fun {result} hresult => ?_⟩
  · obtain ⟨value, hvalue, hrest⟩ := Option.bind_eq_some_iff.mp hresult
    have hfirst : ¬ cut value := fun hshort => hwhole (hcut value _ result hshort hrest)
    exact Option.bind_eq_some_iff.mpr
      ⟨value, h.mono hvalue hfirst hle, (hnext value hfirst).mono hrest hwhole hle⟩
  · obtain ⟨value, hvalue, hrest⟩ := Option.bind_eq_some_iff.mp hresult
    obtain ⟨n, hn, hfirst⟩ := h.reached hvalue
    obtain ⟨k, hk, hwhole⟩ := (hnext value hfirst).reached hrest
    -- The larger of the two limits is enough for either part.
    have hleft : ∀ n', some (max n k) = some n' → n ≤ n' := by
      rintro _ ⟨⟩
      exact Nat.le_max_left n k
    have hright : ∀ n', some (max n k) = some n' → k ≤ n' := by
      rintro _ ⟨⟩
      exact Nat.le_max_right n k
    exact ⟨max n k, Option.bind_eq_some_iff.mpr
      ⟨value, h.mono hn hfirst hleft, (hnext value hfirst).mono hk hwhole hright⟩, hwhole⟩

theorem map {f : α → β} (h : Steady cut compute) (hcut : ∀ value, cut' (f value) ↔ cut value) :
    Steady cut' fun limit => (compute limit).map f := by
  simp only [Option.map_eq_bind]
  refine h.bind (fun value hwhole => const (mt (hcut value).mp hwhole)) ?_
  rintro value limit result hshort ⟨⟩
  exact (hcut value).mpr hshort

end Steady

/-! ## Runs -/

namespace Machine

/-- The run has been ended by the limit. -/
def Exhausted (ended : Except Stop Nat × Machine) : Prop :=
  ∃ steps, ended.1 = .error (.stepLimit steps)

theorem steady_runWith (m : Machine) : Steady Exhausted m.runWith := by
  refine ⟨fun {n larger ended} h hwhole hle => ?_, fun {ended} h => ?_⟩
  · exact runWith_eq_some_iff.mpr
      ((runWith_eq_some_iff.mp h).mono (fun steps hsteps => hwhole ⟨steps, hsteps⟩) hle)
  · have hends := runWith_eq_some_iff.mp h
    obtain ⟨n, hn⟩ := hends.exists_limit
    refine ⟨n, runWith_eq_some_iff.mpr (hn n (Nat.le_refl n)), ?_⟩
    rintro ⟨steps, hsteps⟩
    exact hends.ne_stepLimit steps hsteps

end Machine

/-! ## Calls -/

namespace CallResult

/-- The run of the call has been ended by the limit. -/
def Exhausted (result : CallResult) : Prop := ∃ steps, result.stop = some (.stepLimit steps)

theorem exhausted_ofEnding_iff {ending : Except Stop Nat} {r : Registers} :
    (ofEnding ending r).Exhausted ↔ ∃ steps, ending = .error (.stepLimit steps) := by
  unfold Exhausted ofEnding
  cases ending with
  | ok steps => simp
  | error stop => simp

/-- A call whose run has been cut short is rejected for that. -/
theorem check_of_exhausted {result : CallResult} {steps : Nat}
    (h : result.stop = some (.stepLimit steps)) (block : Block) :
    result.check block = .error (.unexpectedHalt result.halt (some (.stepLimit steps))) := by
  unfold check
  rw [h]
  rfl

/-- A call is rejected as cut short only if it has been. -/
theorem exhausted_of_check {result : CallResult} {block : Block} {error : ExecutionError}
    (h : result.check block = .error error) {offset : Nat}
    (hlimit : (Error.execution offset error).isStepLimit = true) : result.Exhausted := by
  unfold check at h
  dsimp only at h
  -- Only the first thing that can be wrong has to do with how the run has ended.
  split_ifs at h <;> cases h
  · cases hstop : result.stop with
    | none =>
      rw [hstop] at hlimit
      cases hlimit
    | some stop =>
      rw [hstop] at hlimit
      cases stop with
      | gaveUp place cause => cases hlimit
      | stepLimit steps => exact ⟨steps, hstop⟩
  all_goals cases hlimit

end CallResult

namespace Sandbox

variable {s : Sandbox} {block : Block} {n : Nat}

theorem executeWith_some (n : Nat) (s : Sandbox) (block : Block) (header : BlockHeader) :
    s.executeWith (some n) block header = some (s.execute n block header) := by
  unfold executeWith execute
  rcases s.prepare block header with ⟨stop | ⟨⟩, m⟩
  · rfl
  · dsimp only
    rw [Machine.runWith_some]
    rfl

theorem callWith_some (n : Nat) (s : Sandbox) (block : Block) :
    s.callWith (some n) block = some (s.call n block) := by
  unfold callWith call
  cases block.header with
  | error error => rfl
  | ok header =>
    dsimp only
    rw [executeWith_some]
    rfl

/-- The stop of a call that cannot be entered is no limit. -/
theorem gaveUp_of_prepare {header : BlockHeader} {stop : Stop} {m : Machine}
    (h : s.prepare block header = (.error stop, m)) :
    ∃ place cause, stop = .gaveUp place cause := by
  unfold prepare at h
  dsimp only at h
  split at h
  · cases h
  · cases h
    exact ⟨_, _, rfl⟩

theorem steady_executeWith (s : Sandbox) (block : Block) (header : BlockHeader) :
    Steady (fun executed => ∃ steps, executed.1 = .error (.stepLimit steps))
      fun limit => s.executeWith limit block header := by
  unfold executeWith
  cases hprepare : s.prepare block header with
  | mk entered m =>
    cases entered with
    | ok => exact m.steady_runWith.map fun ended => Iff.rfl
    | error stop =>
      obtain ⟨place, cause, rfl⟩ := gaveUp_of_prepare hprepare
      refine Steady.const ?_
      rintro ⟨steps, ⟨⟩⟩

/-- A call has been cut short. -/
def CutShort (called : Except FormatError CallResult × Sandbox) : Prop :=
  ∃ result, called.1 = .ok result ∧ result.Exhausted

theorem steady_callWith (s : Sandbox) (block : Block) :
    Steady CutShort fun limit => s.callWith limit block := by
  unfold callWith
  cases hheader : block.header with
  | error error =>
    refine Steady.const ?_
    rintro ⟨result, ⟨⟩, -⟩
  | ok header =>
    refine (s.steady_executeWith block header).map fun executed => ?_
    rw [← CallResult.exhausted_ofEnding_iff]
    constructor
    · rintro ⟨result, ⟨⟩, hexhausted⟩
      exact hexhausted
    · intro hexhausted
      exact ⟨_, rfl, hexhausted⟩

/-! ## Blocks and streams -/

/-- A decompression has failed because a block was cut short. -/
def StepLimited (result : Except Error (List Byte)) : Prop :=
  ∃ error, result = .error error ∧ error.isStepLimit = true

theorem stepLimited_map_iff {f : List Byte → List Byte} {result : Except Error (List Byte)} :
    StepLimited (result.map f) ↔ StepLimited result := by
  unfold StepLimited
  cases result with
  | ok out => simp [Except.map]
  | error error => rfl

theorem steady_decompressWith (s : Sandbox) (blocks : List Block) :
    Steady StepLimited fun limit => s.decompressWith limit blocks := by
  -- The limit is granted afresh to every block, so the induction is on the blocks.
  induction blocks generalizing s with
  | nil =>
    refine Steady.const ?_
    rintro ⟨error, ⟨⟩, -⟩
  | cons block rest ih =>
    refine (s.steady_callWith block).bind ?_ ?_
    · rintro ⟨called, after⟩ hwhole
      cases called with
      | error error =>
        refine Steady.const ?_
        rintro ⟨_, ⟨⟩, hlimit⟩
        cases hlimit
      | ok result =>
        dsimp only
        cases hcheck : result.check block with
        | error error =>
          refine Steady.const ?_
          rintro ⟨_, ⟨⟩, hlimit⟩
          exact hwhole ⟨result, rfl, CallResult.exhausted_of_check hcheck hlimit⟩
        | ok => exact (ih after).map fun result => stepLimited_map_iff
    · rintro ⟨called, after⟩ limit result ⟨found, ⟨⟩, steps, hstop⟩ hresult
      dsimp only at hresult
      rw [CallResult.check_of_exhausted hstop] at hresult
      cases hresult
      exact ⟨_, rfl, rfl⟩

theorem decompressWith_some (n : Nat) (s : Sandbox) (blocks : List Block) :
    s.decompressWith (some n) blocks = some (s.decompress n blocks) := by
  induction blocks generalizing s with
  | nil => rfl
  | cons block rest ih =>
    unfold decompressWith decompress
    rw [callWith_some, Option.bind_some]
    rcases s.call n block with ⟨error | result, after⟩
    · rfl
    · dsimp only
      cases result.check block with
      | error error => rfl
      | ok =>
        dsimp only
        rw [ih]
        rfl

end Sandbox

open Sandbox

variable {bytes : List Byte} {result : Except Error (List Byte)}

theorem decompressWith_some (n : Nat) (bytes : List Byte) :
    decompressWith (some n) bytes = some (decompress n bytes) := by
  unfold decompressWith decompress
  cases Container.parse bytes with
  | error error => rfl
  | ok container =>
    dsimp only
    show _ = some ((Sandbox.load container.image).mapError Error.setup >>= _)
    cases Sandbox.load container.image with
    | error error => rfl
    | ok s => exact s.decompressWith_some n container.blocks

theorem steady_decompressWith (bytes : List Byte) :
    Steady StepLimited fun limit => decompressWith limit bytes := by
  unfold decompressWith
  cases Container.parse bytes with
  | error error =>
    refine Steady.const ?_
    rintro ⟨_, ⟨⟩, ⟨⟩⟩
  | ok container =>
    dsimp only
    cases Sandbox.load container.image with
    | error error =>
      refine Steady.const ?_
      rintro ⟨_, ⟨⟩, ⟨⟩⟩
    | ok s => exact s.steady_decompressWith container.blocks

/-- Decompressing without a limit comes to what it comes to with enough patience. -/
theorem decompressWith_none_eq_some_iff :
    decompressWith none bytes = some result
      ↔ ∃ patience, decompressUnlimited? patience bytes = some result := by
  have hown : ∀ result : Except Error (List Byte), ¬ StepLimited result
      ↔ ∀ error, result = .error error → error.isStepLimit = false := by
    intro result
    unfold StepLimited
    simp
  simp only [decompressUnlimited_eq_some_iff, ← hown]
  constructor
  · intro h
    obtain ⟨n, hn, hwhole⟩ := (steady_decompressWith bytes).reached h
    rw [decompressWith_some] at hn
    exact ⟨n, Option.some_inj.mp hn, hwhole⟩
  · rintro ⟨n, rfl, hwhole⟩
    refine (steady_decompressWith bytes).mono (decompressWith_some n bytes) hwhole ?_
    rintro _ ⟨⟩

/-- The limit never changes an answer: what a decompression comes to that has not been cut short by
it, it comes to under every larger limit, and without a limit, where it ends; and what it comes to
without a limit, it comes to under every limit that is large enough. -/
theorem limit_only_cuts (bytes : List Byte) :
    (∀ n, (∀ error, decompress n bytes = .error error → error.isStepLimit = false) →
        (∀ n', n ≤ n' → decompress n' bytes = decompress n bytes)
          ∧ decompressWith none bytes = some (decompress n bytes))
      ∧ ∀ result, decompressWith none bytes = some result →
          ∃ n₀, ∀ n, n₀ ≤ n → decompress n bytes = result := by
  have hsteady := steady_decompressWith bytes
  refine ⟨fun n hown => ?_, fun result hresult => ?_⟩
  · have hwhole : ¬ StepLimited (decompress n bytes) := by
      rintro ⟨error, herror, hlimit⟩
      rw [hown error herror] at hlimit
      cases hlimit
    refine ⟨fun n' hle => ?_, ?_⟩
    · have hlarger : decompressWith (some n') bytes = some (decompress n bytes) := by
        refine hsteady.mono (decompressWith_some n bytes) hwhole ?_
        rintro _ ⟨⟩
        exact hle
      rw [decompressWith_some] at hlarger
      exact Option.some_inj.mp hlarger
    · refine hsteady.mono (decompressWith_some n bytes) hwhole ?_
      rintro _ ⟨⟩
  · obtain ⟨n₀, hn₀⟩ := hsteady.exists_limit hresult
    refine ⟨n₀, fun n hle => ?_⟩
    have hlarge := hn₀ n hle
    rw [decompressWith_some] at hlarge
    exact Option.some_inj.mp hlarge

open Routine in
/-- Six steps are enough to copy a block. -/
theorem decompress_six_copied (datas : List (List Byte))
    (hfits : ∀ data ∈ datas, data.length ≤ maxCopied) :
    decompress 6 (copiedStream copy datas) = .ok datas.flatten := by
  refine (decompress_of_copies hfits (by decide) fun data hdata => ?_).1
  refine copies_copy (hfits data hdata) ?_
  rintro _ ⟨⟩
  exact Nat.le_refl 6

open Routine in
/-- Any number of further steps makes no difference. -/
theorem limit_only_cuts_two_blocks :
    decompress 6 (copiedStream copy [[1, 2, 3], []]) = .ok [1, 2, 3]
      ∧ (∀ n, 6 ≤ n → decompress n (copiedStream copy [[1, 2, 3], []]) = .ok [1, 2, 3])
      ∧ decompressWith none (copiedStream copy [[1, 2, 3], []]) = some (.ok [1, 2, 3])
      ∧ ∃ n₀, ∀ n, n₀ ≤ n → decompress n (copiedStream copy [[1, 2, 3], []]) = .ok [1, 2, 3] := by
  have hout : decompress 6 (copiedStream copy [[1, 2, 3], []]) = .ok [1, 2, 3] :=
    decompress_six_copied [[1, 2, 3], []] (by decide)
  obtain ⟨hlarger, hunlimited⟩ := limit_only_cuts (copiedStream copy [[1, 2, 3], []])
  obtain ⟨hsame, hends⟩ := hlarger 6 (by rw [hout]; rintro error ⟨⟩)
  rw [hout] at hsame hends
  exact ⟨hout, hsame, hends, hunlimited _ hends⟩

end CmStream
