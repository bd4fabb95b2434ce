import CmStream.Proofs.Sandbox.Calls

/-!
# Which streams decompress, and to what

A stream decompresses if it parses, its image fits, and every block is accepted, each by the
sandbox that the blocks before it have left. The output is what the blocks leave behind, and there
is an output exactly then; otherwise the error is the first thing that went wrong. With a limit
this is what `decompress` comes to, and without one it is what every run that ends comes to.
-/

namespace CmStream

namespace Sandbox

variable {limit : Option Nat} {n : Nat} {s : Sandbox} {blocks : List Block}
  {states : List Sandbox} {error : Error}

/-- Every block is accepted, the first by the given sandbox and each other by the one that the
block before it has left; the list has the sandboxes after each block. -/
inductive AcceptsAll (limit : Option Nat) : Sandbox → List Block → List Sandbox → Prop
  | nil (s : Sandbox) : AcceptsAll limit s [] []
  | cons {s after : Sandbox} {block : Block} {rest : List Block} {states : List Sandbox}
      (accepts : Accepts limit s block after) (later : AcceptsAll limit after rest states) :
      AcceptsAll limit s (block :: rest) (after :: states)

/-- Some blocks are accepted and the one behind them is rejected. -/
inductive RejectsFirst (limit : Option Nat) : Sandbox → List Block → Error → Prop
  | here {s : Sandbox} {block : Block} {error : Error} (rest : List Block)
      (rejects : Rejects limit s block error) : RejectsFirst limit s (block :: rest) error
  | later {s after : Sandbox} {block : Block} {rest : List Block} {error : Error}
      (accepts : Accepts limit s block after) (rejects : RejectsFirst limit after rest error) :
      RejectsFirst limit s (block :: rest) error

/-- The outputs of the blocks, each as it stands right after the run on the block. -/
def collect : List Block → List Sandbox → List Byte
  | block :: blocks, after :: states =>
    after.output block.uncompressedLength ++ collect blocks states
  | _, _ => []

/-- The sum of the lengths that blocks declare. -/
def declaredLength : List Block → Nat
  | [] => 0
  | block :: blocks => block.uncompressedLength.toNat + declaredLength blocks

/-- The blocks have payloads that a stream can hold. -/
def AllFit (blocks : List Block) : Prop :=
  ∀ block ∈ blocks, Block.Fits (block.uncompressedLength, block.payload)

theorem AllFit.tail {block : Block} (h : AllFit (block :: blocks)) : AllFit blocks :=
  fun later hlater => h later (List.mem_cons_of_mem _ hlater)

/-! ## Decompressing blocks -/

theorem acceptsAll_or_rejectsFirst (n : Nat) (s : Sandbox) (blocks : List Block) :
    (∃ states, AcceptsAll (some n) s blocks states)
      ∨ ∃ error, RejectsFirst (some n) s blocks error := by
  induction blocks generalizing s with
  | nil => exact .inl ⟨[], .nil s⟩
  | cons block rest ih =>
    rcases accepts_or_rejects n s block with ⟨after, haccepts⟩ | ⟨error, hrejects⟩
    · rcases ih after with ⟨states, hlater⟩ | ⟨error, hlater⟩
      · exact .inl ⟨_, .cons haccepts hlater⟩
      · exact .inr ⟨error, .later haccepts hlater⟩
    · exact .inr ⟨error, .here rest hrejects⟩

theorem decompress_of_acceptsAll (h : AcceptsAll (some n) s blocks states)
    (hlaid : LaidOut s.machine.memory) (hfit : AllFit blocks) :
    s.decompress n blocks = .ok (collect blocks states) := by
  -- Each run leaves the layout as it was, so the next block is entered like the first.
  induction h with
  | nil s => rfl
  | cons accepts later ih =>
    rw [decompress_cons_of_accepts accepts hlaid (hfit _ List.mem_cons_self),
      ih (accepts.laidOut hlaid) hfit.tail]
    rfl

theorem decompress_of_rejectsFirst (h : RejectsFirst (some n) s blocks error)
    (hlaid : LaidOut s.machine.memory) (hfit : AllFit blocks) :
    s.decompress n blocks = .error error := by
  induction h with
  | here rest rejects =>
    exact decompress_cons_of_rejects rejects hlaid (hfit _ List.mem_cons_self) rest
  | later accepts rejects ih =>
    rw [decompress_cons_of_accepts accepts hlaid (hfit _ List.mem_cons_self),
      ih (accepts.laidOut hlaid) hfit.tail]
    rfl

/-! ## What accepted blocks leave -/

theorem AcceptsAll.length_collect (h : AcceptsAll limit s blocks states)
    (hlaid : LaidOut s.machine.memory) :
    (collect blocks states).length = declaredLength blocks := by
  induction h with
  | nil s => rfl
  | cons accepts later ih =>
    have hafter := accepts.laidOut hlaid
    rw [collect, List.length_append, length_output hafter, ih hafter, declaredLength]

theorem AcceptsAll.read_zero (h : AcceptsAll limit s blocks states)
    (hlaid : LaidOut s.machine.memory) :
    ∀ after ∈ states, ∀ access, after.machine.memory.read access 0 = .ok haltingByte := by
  induction h with
  | nil s =>
    intro after hafter
    contradiction
  | cons accepts later ih =>
    intro after hafter access
    rcases List.mem_cons.mp hafter with rfl | hafter
    · exact accepts.read_zero hlaid access
    · exact ih (accepts.laidOut hlaid) after hafter access

/-! ## Limits -/

theorem AcceptsAll.mono {larger : Option Nat} (h : AcceptsAll (some n) s blocks states)
    (hle : ∀ n', larger = some n' → n ≤ n') : AcceptsAll larger s blocks states := by
  induction h with
  | nil s => exact .nil s
  | cons accepts later ih => exact .cons (accepts.mono hle) ih

theorem RejectsFirst.mono {larger : Option Nat} (h : RejectsFirst (some n) s blocks error)
    (hown : error.isStepLimit = false) (hle : ∀ n', larger = some n' → n ≤ n') :
    RejectsFirst larger s blocks error := by
  induction h with
  | here rest rejects => exact .here rest (rejects.mono hown hle)
  | later accepts rejects ih => exact .later (accepts.mono hle) (ih hown)

theorem AcceptsAll.exists_limit (h : AcceptsAll none s blocks states) :
    ∃ n, ∀ n', n ≤ n' → AcceptsAll (some n') s blocks states := by
  induction h with
  | nil s => exact ⟨0, fun _ _ => .nil s⟩
  | cons accepts later ih =>
    obtain ⟨n, hn⟩ := accepts.exists_limit
    obtain ⟨k, hk⟩ := ih
    -- The larger of the two limits is enough for this block and for the others.
    refine ⟨max n k, fun n' hle => .cons (hn n' ?_) (hk n' ?_)⟩
    · exact Nat.le_trans (Nat.le_max_left n k) hle
    · exact Nat.le_trans (Nat.le_max_right n k) hle

theorem RejectsFirst.exists_limit (h : RejectsFirst none s blocks error) :
    ∃ n, ∀ n', n ≤ n' → RejectsFirst (some n') s blocks error := by
  induction h with
  | here rest rejects =>
    obtain ⟨n, hn⟩ := rejects.exists_limit
    exact ⟨n, fun n' hle => .here rest (hn n' hle)⟩
  | later accepts rejects ih =>
    obtain ⟨n, hn⟩ := accepts.exists_limit
    obtain ⟨k, hk⟩ := ih
    refine ⟨max n k, fun n' hle => .later (hn n' ?_) (hk n' ?_)⟩
    · exact Nat.le_trans (Nat.le_max_left n k) hle
    · exact Nat.le_trans (Nat.le_max_right n k) hle

theorem RejectsFirst.isStepLimit_eq_false (h : RejectsFirst none s blocks error) :
    error.isStepLimit = false := by
  -- The limit is a parameter of the two relations; the induction needs it as a variable.
  generalize hlimit : (none : Option Nat) = limit at h
  induction h with
  | here rest rejects => exact (hlimit ▸ rejects).isStepLimit_eq_false
  | later accepts rejects ih => exact ih

end Sandbox

/-! ## Streams -/

variable {limit : Option Nat} {n : Nat} {bytes out : List Byte} {container : Container}
  {error : Error}

/-- The stream parses, its image fits into the space for code, and the sandbox that is set up for
the image accepts all blocks and leaves the given output. -/
def Accepted (limit : Option Nat) (bytes out : List Byte) : Prop :=
  ∃ container s states, Container.parse bytes = .ok container
    ∧ container.image.code.length ≤ Sandbox.codeSpace ∧ Sandbox.load container.image = .ok s
    ∧ Sandbox.AcceptsAll limit s container.blocks states
    ∧ out = Sandbox.collect container.blocks states

/-- What is wrong with a stream: it does not parse, its image is too long, or a block is
rejected. -/
inductive Failed (limit : Option Nat) (bytes : List Byte) : Error → Prop
  | format {error : FormatError} (unparsed : Container.parse bytes = .error error) :
      Failed limit bytes (.format error)
  | capacity {container : Container} (parsed : Container.parse bytes = .ok container)
      (long : Sandbox.codeSpace < container.image.code.length) :
      Failed limit bytes (.setup (.capacity container.image.code.length Sandbox.codeSpace))
  | block {container : Container} {s : Sandbox} {error : Error}
      (parsed : Container.parse bytes = .ok container)
      (short : container.image.code.length ≤ Sandbox.codeSpace)
      (loaded : Sandbox.load container.image = .ok s)
      (rejects : Sandbox.RejectsFirst limit s container.blocks error) :
      Failed limit bytes error

theorem allFit_of_parse (hparse : Container.parse bytes = .ok container) :
    Sandbox.AllFit container.blocks :=
  fun _ hblock => Container.fits_of_parse_eq_ok hparse hblock

theorem decompress_of_load {s : Sandbox} (hparse : Container.parse bytes = .ok container)
    (hload : Sandbox.load container.image = .ok s) :
    decompress n bytes = s.decompress n container.blocks := by
  unfold decompress
  rw [hparse]
  show (Sandbox.load container.image).mapError Error.setup >>= _ = _
  rw [hload]
  rfl

theorem laidOut_of_load {image : Image} {s : Sandbox} (h : Sandbox.load image = .ok s) :
    Sandbox.LaidOut s.machine.memory := by
  rcases Nat.lt_or_ge Sandbox.codeSpace image.code.length with hlong | hshort
  · rw [Sandbox.load_eq_error hlong] at h
    cases h
  · rw [Sandbox.load_eq_ok hshort] at h
    cases h
    exact Sandbox.laidOut_initialMemory image.code

theorem decompress_of_accepted (h : Accepted (some n) bytes out) :
    decompress n bytes = .ok out := by
  obtain ⟨container, s, states, hparse, -, hload, haccepts, rfl⟩ := h
  rw [decompress_of_load hparse hload]
  exact Sandbox.decompress_of_acceptsAll haccepts (laidOut_of_load hload) (allFit_of_parse hparse)

theorem decompress_of_failed (h : Failed (some n) bytes error) :
    decompress n bytes = .error error := by
  cases h with
  | format unparsed =>
    unfold decompress
    rw [unparsed]
    rfl
  | capacity parsed long =>
    unfold decompress
    rw [parsed]
    show (Sandbox.load _).mapError Error.setup >>= _ = _
    rw [Sandbox.load_eq_error long]
    rfl
  | block parsed short loaded rejects =>
    rw [decompress_of_load parsed loaded]
    exact Sandbox.decompress_of_rejectsFirst rejects (laidOut_of_load loaded)
      (allFit_of_parse parsed)

theorem accepted_or_failed (n : Nat) (bytes : List Byte) :
    (∃ out, Accepted (some n) bytes out) ∨ ∃ error, Failed (some n) bytes error := by
  cases hparse : Container.parse bytes with
  | error error => exact .inr ⟨_, .format hparse⟩
  | ok container =>
    rcases Nat.lt_or_ge Sandbox.codeSpace container.image.code.length with hlong | hshort
    · exact .inr ⟨_, .capacity hparse hlong⟩
    · have hload := Sandbox.load_eq_ok hshort
      rcases Sandbox.acceptsAll_or_rejectsFirst n (Sandbox.initial container.image)
        container.blocks with ⟨states, haccepts⟩ | ⟨error, hrejects⟩
      · exact .inl ⟨_, container, _, states, hparse, hshort, hload, haccepts, rfl⟩
      · exact .inr ⟨error, .block hparse hshort hload hrejects⟩

theorem decompress_ok_iff : decompress n bytes = .ok out ↔ Accepted (some n) bytes out := by
  constructor
  · intro h
    rcases accepted_or_failed n bytes with ⟨out', haccepted⟩ | ⟨error, hfailed⟩
    · rw [decompress_of_accepted haccepted] at h
      cases h
      exact haccepted
    · rw [decompress_of_failed hfailed] at h
      cases h
  · exact decompress_of_accepted

theorem decompress_error_iff :
    decompress n bytes = .error error ↔ Failed (some n) bytes error := by
  constructor
  · intro h
    rcases accepted_or_failed n bytes with ⟨out, haccepted⟩ | ⟨error', hfailed⟩
    · rw [decompress_of_accepted haccepted] at h
      cases h
    · rw [decompress_of_failed hfailed] at h
      cases h
      exact hfailed
  · exact decompress_of_failed

/-! ## Streams without a limit -/

/-- A run without a limit is seen to end if and only if some limit does not cut it short. -/
theorem decompressUnlimited_eq_some_iff {result : Except Error (List Byte)} :
    decompressUnlimited? n bytes = some result
      ↔ decompress n bytes = result
        ∧ ∀ error, result = .error error → error.isStepLimit = false := by
  unfold decompressUnlimited?
  cases decompress n bytes with
  | ok out =>
    constructor
    · rintro ⟨⟩
      exact ⟨rfl, fun error herror => by cases herror⟩
    · rintro ⟨rfl, -⟩
      rfl
  | error error =>
    dsimp only
    constructor
    · intro h
      split at h
      case isTrue => cases h
      case isFalse hown =>
        cases h
        refine ⟨rfl, ?_⟩
        rintro _ ⟨⟩
        exact (Bool.not_eq_true _).mp hown
    · rintro ⟨rfl, hown⟩
      rw [hown error rfl, if_neg Bool.false_ne_true]

theorem Accepted.mono {larger : Option Nat} (h : Accepted (some n) bytes out)
    (hle : ∀ n', larger = some n' → n ≤ n') : Accepted larger bytes out := by
  obtain ⟨container, s, states, hparse, hshort, hload, haccepts, hout⟩ := h
  exact ⟨container, s, states, hparse, hshort, hload, haccepts.mono hle, hout⟩

theorem Accepted.exists_limit (h : Accepted none bytes out) :
    ∃ n, ∀ n', n ≤ n' → Accepted (some n') bytes out := by
  obtain ⟨container, s, states, hparse, hshort, hload, haccepts, hout⟩ := h
  obtain ⟨n, hn⟩ := haccepts.exists_limit
  exact ⟨n, fun n' hle => ⟨container, s, states, hparse, hshort, hload, hn n' hle, hout⟩⟩

theorem Failed.mono {larger : Option Nat} (h : Failed (some n) bytes error)
    (hown : error.isStepLimit = false) (hle : ∀ n', larger = some n' → n ≤ n') :
    Failed larger bytes error := by
  cases h with
  | format unparsed => exact .format unparsed
  | capacity parsed long => exact .capacity parsed long
  | block parsed short loaded rejects =>
    exact .block parsed short loaded (rejects.mono hown hle)

theorem Failed.exists_limit (h : Failed none bytes error) :
    ∃ n, ∀ n', n ≤ n' → Failed (some n') bytes error := by
  cases h with
  | format unparsed => exact ⟨0, fun _ _ => .format unparsed⟩
  | capacity parsed long => exact ⟨0, fun _ _ => .capacity parsed long⟩
  | block parsed short loaded rejects =>
    obtain ⟨n, hn⟩ := rejects.exists_limit
    exact ⟨n, fun n' hle => .block parsed short loaded (hn n' hle)⟩

theorem Failed.isStepLimit_eq_false (h : Failed none bytes error) :
    error.isStepLimit = false := by
  cases h with
  | format | capacity => rfl
  | block parsed short loaded rejects => exact rejects.isStepLimit_eq_false

theorem decompressUnlimited_ok_iff :
    (∃ patience, decompressUnlimited? patience bytes = some (.ok out))
      ↔ Accepted none bytes out := by
  constructor
  · rintro ⟨patience, h⟩
    obtain ⟨hout, -⟩ := decompressUnlimited_eq_some_iff.mp h
    refine (decompress_ok_iff.mp hout).mono ?_
    rintro n' ⟨⟩
  · intro h
    obtain ⟨n, hn⟩ := h.exists_limit
    refine ⟨n, decompressUnlimited_eq_some_iff.mpr
      ⟨decompress_of_accepted (hn n (Nat.le_refl n)), ?_⟩⟩
    rintro error ⟨⟩

theorem decompressUnlimited_error_iff :
    (∃ patience, decompressUnlimited? patience bytes = some (.error error))
      ↔ Failed none bytes error := by
  constructor
  · rintro ⟨patience, h⟩
    obtain ⟨herror, hown⟩ := decompressUnlimited_eq_some_iff.mp h
    refine (decompress_error_iff.mp herror).mono (hown error rfl) ?_
    rintro n' ⟨⟩
  · intro h
    obtain ⟨n, hn⟩ := h.exists_limit
    refine ⟨n, decompressUnlimited_eq_some_iff.mpr
      ⟨decompress_of_failed (hn n (Nat.le_refl n)), ?_⟩⟩
    rintro _ ⟨⟩
    exact h.isStepLimit_eq_false

/-- Acceptance is sound and exact, with a limit and, for the runs that end, without one. An
accepted stream gives as many bytes as its blocks declare, and behind the run on each of its
blocks the halting instruction is still at the foot of memory. -/
theorem decompress_exact (bytes : List Byte) :
    (∀ limit out, decompress limit bytes = .ok out ↔ Accepted (some limit) bytes out)
      ∧ (∀ limit error, decompress limit bytes = .error error ↔ Failed (some limit) bytes error)
      ∧ (∀ out, (∃ patience, decompressUnlimited? patience bytes = some (.ok out))
          ↔ Accepted none bytes out)
      ∧ (∀ error, (∃ patience, decompressUnlimited? patience bytes = some (.error error))
          ↔ Failed none bytes error)
      ∧ ∀ limit image s blocks states, Sandbox.load image = .ok s →
          Sandbox.AcceptsAll limit s blocks states →
          (Sandbox.collect blocks states).length = Sandbox.declaredLength blocks
            ∧ ∀ after ∈ states, ∀ access,
                after.machine.memory.read access 0 = .ok Sandbox.haltingByte := by
  refine ⟨fun _ _ => decompress_ok_iff, fun _ _ => decompress_error_iff,
    fun _ => decompressUnlimited_ok_iff, fun _ => decompressUnlimited_error_iff, ?_⟩
  intro limit image s blocks states hload haccepts
  have hlaid := laidOut_of_load hload
  exact ⟨haccepts.length_collect hlaid, haccepts.read_zero hlaid⟩

end CmStream
