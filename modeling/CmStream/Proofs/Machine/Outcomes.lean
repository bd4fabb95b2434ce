import CmStream.Proofs.Machine.Hazards

/-!
# The outcome of a step

On an open memory a step stops for the causes that the bytes in front of the machine give and for no
other. The opcode map says which instruction lies in front of the machine, and the instruction
whether it gives up.
-/

namespace CmStream

namespace Instruction

/-- The opcodes of the instructions that may give up by themselves and that the machine has. -/
def hazards : List (Instruction × Byte) :=
  [(loadAddress, 0x8d), (loadFarPointer .es, 0xc4), (loadFarPointer .ds, 0xc5), (breakpoint, 0xcc),
    (interrupt, 0xcd), (interruptOnOverflow, 0xce), (splitDigits, 0xd4), (unaryGroup .byte, 0xf6),
    (unaryGroup .word, 0xf7), (byteGroup, 0xfe), (wordGroup, 0xff)]

/-- Does the map agree with the tables on what an opcode may give up for? -/
def agreesHazard (opcode : Byte) : Opcode → Bool
  | .modifier _ => true
  | .instruction instruction =>
    decide (instruction = .unsupported ↔ Encoding.isUnsupported opcode = true)
      && decide (instruction = .undefined ↔ [0x0f, 0x63, 0xf1].contains opcode = true)
      && decide (instruction = .halt ↔ opcode = 0xf4)
      && hazards.all (fun entry => decide (instruction = entry.1 ↔ opcode = entry.2))
      && (instruction.persists || decide (instruction = .unsupported)
        || decide (instruction = .undefined) || hazards.any fun entry => instruction = entry.1)

theorem agreesHazard_ofByte : ∀ opcode, agreesHazard opcode (Opcode.ofByte opcode) = true :=
  Opcode.forall_ofByte (by decide +kernel)

/-- What the tables say about the instruction of an opcode. -/
structure Classified (opcode : Byte) (instruction : Instruction) : Prop where
  unsupported_iff : instruction = .unsupported ↔ Encoding.isUnsupported opcode = true
  undefined_iff : instruction = .undefined ↔ [0x0f, 0x63, 0xf1].contains opcode = true
  halt_iff : instruction = .halt ↔ opcode = 0xf4
  hazard_iff : ∀ entry ∈ hazards, (instruction = entry.1 ↔ opcode = entry.2)
  complete : ((instruction.persists = true ∨ instruction = .unsupported)
    ∨ instruction = .undefined) ∨ ∃ entry ∈ hazards, instruction = entry.1

theorem classified {opcode : Byte} {instruction : Instruction}
    (hopcode : Opcode.ofByte opcode = .instruction instruction) :
    Classified opcode instruction := by
  have hagrees := agreesHazard_ofByte opcode
  simp only [hopcode, agreesHazard, Bool.and_eq_true, Bool.or_eq_true, decide_eq_true_eq,
    List.all_eq_true, List.any_eq_true] at hagrees
  obtain ⟨⟨⟨⟨hunsupported, hundefined⟩, hhalt⟩, hhazard⟩, hcomplete⟩ := hagrees
  exact ⟨hunsupported, hundefined, hhalt, hhazard, hcomplete⟩

end Instruction

namespace Machine

open Microprogram Instruction

variable {m : Machine} {opcode : Byte} {instruction : Instruction} {modifiers : Modifiers}
  {cause : Cause}

section Behind

variable (hopen : m.memory.Open) (hbegins : m.opcode? = some opcode)
  (hclassified : Classified opcode instruction)
  (hoverride : modifiers.override = Encoding.override? m.modifiers m.registers)
include hopen hbegins hclassified hoverride

/-- An instruction that gives up does so for a cause that its bytes give. -/
theorem givesUp_of_run
    (h : ((instruction.perform opcode modifiers).run m.behindOpcode).1 = .error cause) :
    m.GivesUp cause := by
  have hbehind := open_behindOpcode hopen
  obtain ((hpersists | rfl) | rfl) | ⟨entry, hentry, hinstruction⟩ := hclassified.complete
  · obtain ⟨value, after, hrun, -⟩ :=
      (persists_perform hpersists opcode modifiers).exists_run hbehind
    rw [hrun] at h
    cases h
  · cases h
    exact .unsupported hbegins (hclassified.unsupported_iff.mp rfl)
  · cases h
    refine .undefined hbegins ?_
    rw [Encoding.isUndefined, hclassified.undefined_iff.mp rfl]
    rfl
  obtain rfl := (hclassified.hazard_iff entry hentry).mp hinstruction
  subst hinstruction
  simp only [hazards, List.mem_cons, List.not_mem_nil, or_false] at hentry
  rcases hentry with rfl | rfl | rfl | rfl | rfl | rfl | rfl | rfl | rfl | rfl | rfl
  · obtain ⟨rfl, hregister⟩ := (givesUpIff_loadAddress hopen hoverride _ _).mp h
    exact .undefined hbegins (by simp [Encoding.isUndefined, hregister])
  · obtain ⟨rfl, hregister⟩ := (givesUpIff_loadFarPointer hopen hoverride _ .es _).mp h
    exact .undefined hbegins (by simp [Encoding.isUndefined, hregister])
  · obtain ⟨rfl, hregister⟩ := (givesUpIff_loadFarPointer hopen hoverride _ .ds _).mp h
    exact .undefined hbegins (by simp [Encoding.isUndefined, hregister])
  · cases h
    exact .breakpoint hbegins
  · obtain ⟨rfl, -⟩ := (givesUpIff_interrupt hbehind _ _ _).mp h
    rw [nextByte_behindOpcode]
    exact .interrupt hbegins
  · obtain ⟨rfl, hset⟩ := (givesUpIff_interruptOnOverflow hbehind _ _ _).mp h
    exact .overflow hbegins hset
  · obtain ⟨rfl, hzero⟩ := (givesUpIff_splitDigits hbehind _).mp h
    rw [nextByte_behindOpcode] at hzero
    exact .splitDigits hbegins hzero
  · obtain ⟨rfl, hfails⟩ := (givesUpIff_unaryGroup hopen hoverride _ .byte _).mp h
    exact .divide (show m.opcode? = some (Encoding.unaryOpcode .byte) from hbegins) hfails
  · obtain ⟨rfl, hfails⟩ := (givesUpIff_unaryGroup hopen hoverride _ .word _).mp h
    exact .divide (show m.opcode? = some (Encoding.unaryOpcode .word) from hbegins) hfails
  · obtain ⟨rfl, hfield⟩ := (givesUpIff_byteGroup hopen hoverride _ _).mp h
    exact .undefined hbegins (by simp [Encoding.isUndefined, hfield])
  · obtain ⟨rfl, hfield | ⟨hregister, hfield | hfield⟩⟩ :=
      (givesUpIff_wordGroup hopen hoverride _ _).mp h
    · exact .undefined hbegins (by simp [Encoding.isUndefined, hfield])
    · exact .undefined hbegins (by simp [Encoding.isUndefined, hregister, hfield])
    · exact .undefined hbegins (by simp [Encoding.isUndefined, hregister, hfield])

/-- What the opcode and the byte behind it leave undefined is refused as such. -/
theorem run_of_isUndefined (h : Encoding.isUndefined opcode (m.tailAt 0) = true) :
    ((instruction.perform opcode modifiers).run m.behindOpcode).1
      = .error (.undefinedOpcode opcode) := by
  have heq (hazard : Instruction) (hentry : (hazard, opcode) ∈ hazards) : instruction = hazard :=
    (hclassified.hazard_iff _ hentry).mpr rfl
  simp only [Encoding.isUndefined, Bool.or_eq_true, Bool.and_eq_true, beq_iff_eq,
    decide_eq_true_eq] at h
  obtain ((hnone | ⟨rfl, hfield⟩) | ⟨rfl, hfield⟩) | ⟨hregister, hplace | ⟨rfl, hfield⟩⟩ := h
  · obtain rfl := hclassified.undefined_iff.mpr hnone
    rfl
  · obtain rfl := heq byteGroup (by simp [hazards])
    exact (givesUpIff_byteGroup hopen hoverride _ _).mpr ⟨rfl, hfield⟩
  · obtain rfl := heq wordGroup (by simp [hazards])
    exact (givesUpIff_wordGroup hopen hoverride _ _).mpr ⟨rfl, .inl hfield⟩
  · simp only [List.contains_cons, List.contains_nil, Bool.or_eq_true, beq_iff_eq,
      Bool.false_eq_true, or_false] at hplace
    rcases hplace with rfl | rfl | rfl
    · obtain rfl := heq loadAddress (by simp [hazards])
      exact (givesUpIff_loadAddress hopen hoverride _ _).mpr ⟨rfl, hregister⟩
    · obtain rfl := heq (loadFarPointer .es) (by simp [hazards])
      exact (givesUpIff_loadFarPointer hopen hoverride _ _ _).mpr ⟨rfl, hregister⟩
    · obtain rfl := heq (loadFarPointer .ds) (by simp [hazards])
      exact (givesUpIff_loadFarPointer hopen hoverride _ _ _).mpr ⟨rfl, hregister⟩
  · obtain rfl := heq wordGroup (by simp [hazards])
    exact (givesUpIff_wordGroup hopen hoverride _ _).mpr ⟨rfl, .inr ⟨hregister, hfield⟩⟩

/-- An instruction whose bytes give a cause gives up for it. -/
theorem run_of_givesUp (h : m.GivesUp cause) :
    ((instruction.perform opcode modifiers).run m.behindOpcode).1 = .error cause := by
  have hbehind := open_behindOpcode hopen
  have heq (hazard : Instruction) {its : Byte} (hits : m.opcode? = some its)
      (hentry : (hazard, its) ∈ hazards) : instruction = hazard ∧ opcode = its := by
    obtain rfl := Option.some.inj (hbegins.symm.trans hits)
    exact ⟨(hclassified.hazard_iff _ hentry).mpr rfl, rfl⟩
  cases h with
  | modifiers many =>
    have hfew := (opcode?_eq_some_iff.mp hbegins).1
    omega
  | undefined begins undefined =>
    obtain rfl := Option.some.inj (hbegins.symm.trans begins)
    exact run_of_isUndefined hopen hbegins hclassified hoverride undefined
  | unsupported begins unsupported =>
    obtain rfl := Option.some.inj (hbegins.symm.trans begins)
    obtain rfl := hclassified.unsupported_iff.mpr unsupported
    rfl
  | breakpoint begins =>
    obtain ⟨rfl, rfl⟩ := heq breakpoint begins (by simp [hazards])
    rfl
  | interrupt begins =>
    obtain ⟨rfl, rfl⟩ := heq interrupt begins (by simp [hazards])
    rw [← nextByte_behindOpcode]
    exact (givesUpIff_interrupt hbehind _ _ _).mpr ⟨rfl, trivial⟩
  | overflow begins overflows =>
    obtain ⟨rfl, rfl⟩ := heq interruptOnOverflow begins (by simp [hazards])
    exact (givesUpIff_interruptOnOverflow hbehind _ _ _).mpr ⟨rfl, overflows⟩
  | splitDigits begins zero =>
    obtain ⟨rfl, rfl⟩ := heq splitDigits begins (by simp [hazards])
    rw [← nextByte_behindOpcode] at zero
    exact (givesUpIff_splitDigits hbehind _).mpr ⟨rfl, zero⟩
  | @divide width begins fails =>
    obtain ⟨rfl, rfl⟩ := heq (unaryGroup width) begins (by
      cases width <;> simp [hazards, Encoding.unaryOpcode])
    exact (givesUpIff_unaryGroup hopen hoverride _ width _).mpr ⟨rfl, fails⟩

end Behind

/-! ## Steps -/

theorem step_of_error (h : (fetchAndPerform.run m).1 = .error cause) :
    m.step.1 = .stopped (.gaveUp m.registers.codePointer cause) := by
  rcases hrun : fetchAndPerform.run m with ⟨result, last⟩
  rw [hrun] at h
  cases h
  rw [step_eq_stopped hrun]

/-- The outcome of the step of an instruction, by what the instruction ends with. -/
theorem exists_step_of_opcode (hopen : m.memory.Open) (hbegins : m.opcode? = some opcode) :
    ∃ instruction modifiers, Classified opcode instruction
      ∧ modifiers.override = Encoding.override? m.modifiers m.registers
      ∧ m.step.1 = match ((instruction.perform opcode modifiers).run m.behindOpcode).1 with
        | .ok _ => if instruction = .halt then .halted else .continued
        | .error cause => .stopped (.gaveUp m.registers.codePointer cause) := by
  obtain ⟨instruction, modifiers, hopcode, hoverride, hfetch⟩ := exists_run_fetch hopen hbegins
  refine ⟨instruction, modifiers, classified hopcode, hoverride, ?_⟩
  rcases hperform : (instruction.perform opcode modifiers).run m.behindOpcode with ⟨result, last⟩
  cases result with
  | ok value => rw [step_of_perform hfetch hperform]
  | error cause =>
    refine step_of_error ?_
    unfold fetchAndPerform
    rw [run_bind_of_ok _ hfetch, run_bind, hperform]

/-- The step of an instruction with too many modifiers. -/
theorem step_of_tooMany (hopen : m.memory.Open)
    (h : m.modifiers.length = Encoding.maxModifiers + 1) :
    m.step.1 = .stopped (.gaveUp m.registers.codePointer
      (.undefinedOpcode (m.codeAt Encoding.maxModifiers))) := by
  have hfetch := run_fetch_of_tooMany hopen h
  refine step_of_error ?_
  unfold fetchAndPerform
  rcases hrun : (fetch Instruction.maxModifiers Modifiers.none).run m with ⟨result, last⟩
  rw [hrun] at hfetch
  cases hfetch
  rw [run_bind, hrun]

theorem opcode?_cases (m : Machine) :
    (∃ opcode, m.opcode? = some opcode)
      ∨ m.opcode? = none ∧ m.modifiers.length = Encoding.maxModifiers + 1 := by
  have hle := length_modifiers_le m
  unfold opcode?
  split
  case isTrue => exact .inl ⟨_, rfl⟩
  case isFalse hmany => exact .inr ⟨rfl, by omega⟩

theorem step_stopped_iff (hopen : m.memory.Open) (stop : Stop) :
    m.step.1 = .stopped stop
      ↔ ∃ cause, stop = .gaveUp m.registers.codePointer cause ∧ m.GivesUp cause := by
  obtain ⟨opcode, hbegins⟩ | ⟨hnone, hmany⟩ := opcode?_cases m
  · obtain ⟨instruction, modifiers, hclassified, hoverride, hstep⟩ :=
      exists_step_of_opcode hopen hbegins
    rw [hstep]
    refine ⟨fun hstop => ?_, fun ⟨cause, hstop, hcause⟩ => ?_⟩
    · split at hstop
      case h_1 => split at hstop <;> cases hstop
      case h_2 cause hperform =>
        cases hstop
        exact ⟨cause, rfl, givesUp_of_run hopen hbegins hclassified hoverride hperform⟩
    · rw [run_of_givesUp hopen hbegins hclassified hoverride hcause, hstop]
  · rw [step_of_tooMany hopen hmany]
    refine ⟨fun hstop => ⟨_, (Outcome.stopped.inj hstop).symm, .modifiers hmany⟩, ?_⟩
    rintro ⟨cause, rfl, hcause⟩
    cases hcause with
    | modifiers => rfl
    | undefined begins | unsupported begins | breakpoint begins | interrupt begins
    | overflow begins | splitDigits begins | divide begins =>
      rw [hnone] at begins
      cases begins

theorem step_halted_iff (hopen : m.memory.Open) :
    m.step.1 = .halted ↔ m.opcode? = some 0xf4 := by
  obtain ⟨opcode, hbegins⟩ | ⟨hnone, hmany⟩ := opcode?_cases m
  · obtain ⟨instruction, modifiers, hclassified, hoverride, hstep⟩ :=
      exists_step_of_opcode hopen hbegins
    rw [hstep, hbegins, Option.some.injEq, ← hclassified.halt_iff]
    refine ⟨fun hhalted => ?_, fun hhalt => ?_⟩
    · split at hhalted
      case h_1 =>
        split at hhalted
        case isTrue hhalt => exact hhalt
        case isFalse => cases hhalted
      case h_2 => cases hhalted
    · subst hhalt
      rfl
  · rw [step_of_tooMany hopen hmany, hnone]
    exact iff_of_false nofun nofun

theorem isFault_of_givesUp (h : m.GivesUp cause) : cause.isFault = false := by
  cases h <;> rfl

/-- On an open memory the bytes in front of the machine decide the outcome of a step: it stops just
for the causes that they give, none of them a refused access, and at the place where the first
modifier lies; it halts on the halting instruction; and it continues in all other cases. -/
theorem step_goes_by_opcode (hopen : m.memory.Open) :
    (∀ stop, m.step.1 = .stopped stop
        ↔ ∃ cause, stop = .gaveUp m.registers.codePointer cause ∧ m.GivesUp cause)
      ∧ (∀ cause, m.GivesUp cause → cause.isFault = false)
      ∧ (m.step.1 = .halted ↔ m.opcode? = some 0xf4)
      ∧ (m.step.1 = .continued ↔ m.opcode? ≠ some 0xf4 ∧ ∀ cause, ¬ m.GivesUp cause) := by
  have hstopped := step_stopped_iff hopen
  have hhalted := step_halted_iff hopen
  refine ⟨hstopped, fun cause => isFault_of_givesUp, hhalted, ?_⟩
  rw [ne_eq, ← hhalted]
  cases houtcome : m.step.1 with
  | continued =>
    refine iff_of_true rfl ⟨nofun, fun cause hcause => ?_⟩
    rw [(hstopped _).mpr ⟨cause, rfl, hcause⟩] at houtcome
    cases houtcome
  | halted => simp
  | stopped stop =>
    obtain ⟨cause, -, hcause⟩ := (hstopped stop).mp houtcome
    exact iff_of_false nofun fun hnone => hnone.2 cause hcause

/-- A machine that is about to divide by minus one the lowest of all dividends. Every page of its
memory shows the same bytes. -/
def dividing : Machine :=
  ⟨{ Registers.initial with cs := 0xffff, ip := 0x10, dx := 0x8000, bx := 0xffff },
    ⟨(PagedMemory.onePage [0x2e, 0xf7, 0xfb]).regions,
      Vector.replicate pageCount (some ⟨0, 0, Permissions.all⟩)⟩⟩

theorem open_dividing : dividing.memory.Open := by
  intro index hindex
  refine ⟨⟨0, 0, Permissions.all⟩, ?_, rfl⟩
  unfold PagedMemory.page? dividing
  rw [Vector.getElem?_replicate, if_pos hindex]
  rfl

/-- The quotient does not fit; the stop names the place of the modifier. -/
theorem step_goes_by_opcode_dividing :
    dividing.memory.Open
      ∧ dividing.step.1 = .stopped (.gaveUp ⟨0xffff, 0x10⟩ .divideError) := by
  refine ⟨open_dividing, ((step_goes_by_opcode open_dividing).1 _).mpr ⟨_, rfl, ?_⟩⟩
  have hbegins : dividing.opcode? = some (Encoding.unaryOpcode .word) := by decide +kernel
  exact .divide hbegins (by decide +kernel)

end Machine

end CmStream
