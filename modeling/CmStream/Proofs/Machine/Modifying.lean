import CmStream.Machine.Modifying
import CmStream.Proofs.Machine.Latches
import CmStream.Proofs.Machine.Lockstep
import CmStream.Proofs.Strings.Repeating

/-!
# The last modifiers count

However many modifiers stand in front of an instruction and in whatever order, it is performed with
the last override and the last repetition among them. A modifier too many ends the step, and no
other byte is looked at. So a run of modifiers can be replaced by another one of its length that
ends up with the same.
-/

namespace CmStream

open Encoding Instruction Microprogram

namespace LatchedMachine

/-- The latches hold what the instruction is handed. -/
theorem fetch_eq_ok {allowed : Nat} {l : LatchedMachine} {fetched : Fetched} {after : Machine}
    (h : (Instruction.fetch allowed l.latches).run l.machine = (.ok fetched, after)) :
    l.fetch allowed = (.ok (fetched.opcode, fetched.instruction), ⟨after, fetched.modifiers⟩) := by
  rw [run_fetch_eq] at h
  rcases hfetch : l.fetch allowed with ⟨cause | ⟨opcode, instruction⟩, machine, latches⟩
  · rw [hfetch] at h
    cases h
  · rw [hfetch] at h
    cases h
    rfl

end LatchedMachine

namespace Machine

variable {m m₁ m₂ between : Machine} {code code₁ code₂ : List Byte} {opcode : Byte}
  {instruction : Instruction}

theorem step_of_fetch {fetched : Fetched}
    (hfetch : (fetch Instruction.maxModifiers Modifiers.none).run m = (.ok fetched, between)) :
    m.step = between.dispatch m.registers.codePointer fetched.opcode fetched.instruction
      fetched.modifiers := by
  unfold dispatch
  rcases hperform : (fetched.instruction.perform fetched.opcode fetched.modifiers).run between
    with ⟨cause | ⟨⟨⟩⟩, last⟩
  · exact step_of_perform_error hfetch hperform
  · exact step_of_perform hfetch hperform

/-! ## Enough, and too many -/

theorem run_fetch_of_few (hface : m.Faces (code ++ [opcode]))
    (hmodify : ∀ byte ∈ code, isModifier byte = true)
    (hfew : code.length ≤ Encoding.maxModifiers)
    (hopcode : Opcode.ofByte opcode = .instruction instruction) :
    (fetch Instruction.maxModifiers Modifiers.none).run m
      = (.ok ⟨opcode, instruction, override? code m.registers, repetition? code⟩,
        m.past (code.length + 1)) := by
  have hfew' : code.length ≤ Instruction.maxModifiers := hfew
  rw [run_fetch_gather Modifiers.none hface hmodify hfew' hopcode, gather_none]

/-- The modifier that is one too many ends the step, whatever follows it. -/
theorem step_of_many (hface : m.Faces code) (hmodify : ∀ byte ∈ code, isModifier byte = true)
    (hmany : Encoding.maxModifiers < code.length) :
    m.step = (.stopped (.gaveUp m.registers.codePointer
      (.undefinedOpcode code[Encoding.maxModifiers])), m.past (Encoding.maxModifiers + 1)) := by
  have hlength : (code.take Encoding.maxModifiers).length = Instruction.maxModifiers :=
    List.length_take_of_le (Nat.le_of_lt hmany)
  have hbegin : code.take Encoding.maxModifiers ++ [code[Encoding.maxModifiers]]
      = code.take (Encoding.maxModifiers + 1) := (List.take_succ_eq_append_getElem hmany).symm
  have hfirst : m.Faces (code.take Encoding.maxModifiers ++ [code[Encoding.maxModifiers]]) := by
    rw [hbegin]
    rw [← List.take_append_drop (Encoding.maxModifiers + 1) code] at hface
    exact (faces_append_iff.mp hface).1
  -- No byte after the first one too many is fetched.
  have hfetch := run_fetch_tooMany Modifiers.none hfirst fun byte hbyte =>
    hmodify byte (List.mem_of_mem_take (hbegin ▸ hbyte))
  rw [hlength] at hfetch
  refine step_eq_stopped ?_
  unfold fetchAndPerform
  rw [run_bind, hfetch]
  rfl

/-! ## Runs that are alike -/

/-- What is left of a step behind some modifiers. -/
def performBehind (r : Registers) (code : List Byte) : Microprogram Bool := do
  let fetched ← fetch (Instruction.maxModifiers - code.length)
    ⟨override? code r, repetition? code⟩
  fetched.instruction.perform fetched.opcode fetched.modifiers
  return fetched.instruction == .halt

theorem run_performBehind (hface : m.Faces code) (hmodify : ∀ byte ∈ code, isModifier byte = true)
    (hfew : code.length ≤ Encoding.maxModifiers) :
    fetchAndPerform.run m = (performBehind m.registers code).run (m.past code.length) := by
  have hfew' : code.length ≤ Instruction.maxModifiers := hfew
  unfold fetchAndPerform performBehind
  rw [run_bind, run_fetch_modifiers Modifiers.none hface hmodify hfew', gather_none, ← run_bind]

theorem accesses_performBehind (hface : m.Faces code)
    (hmodify : ∀ byte ∈ code, isModifier byte = true) (hfew : code.length ≤ Encoding.maxModifiers) :
    m.accesses = GrantedAccess.fetchesOf m.registers.codePointer code
      ++ (performBehind m.registers code).accesses (m.past code.length) := by
  have hfew' : code.length ≤ Instruction.maxModifiers := hfew
  unfold accesses fetchAndPerform performBehind
  rw [accesses_bind, accesses_bind, run_fetch_modifiers Modifiers.none hface hmodify hfew',
    accesses_fetch_modifiers Modifiers.none hface hmodify hfew', gather_none, List.append_assoc]

theorem performBehind_eq_of_alike (halike : Alike code₁ code₂) (r : Registers) :
    performBehind r code₁ = performBehind r code₂ := by
  unfold performBehind override?
  rw [halike.length, halike.segment, halike.repetition]

section Alike

variable {hidden : Slot → Prop} (halike : Alike code₁ code₂)
  (hface₁ : m₁.Faces code₁) (hface₂ : m₂.Faces code₂) (hregisters : m₁.registers = m₂.registers)
  (hmemory : m₁.memory.SameOutside hidden m₂.memory)

include halike hface₁ hface₂ hregisters hmemory

theorem step_alike_of_few (hfew : code₁.length ≤ Encoding.maxModifiers)
    (hoverlooks : m₁.Overlooks code₁.length hidden) :
    m₁.step.1 = m₂.step.1 ∧ m₁.step.2.registers = m₂.step.2.registers
      ∧ m₁.step.2.memory.SameOutside hidden m₂.step.2.memory := by
  obtain ⟨r, memory₁⟩ := m₁
  obtain ⟨r', memory₂⟩ := m₂
  obtain rfl : r = r' := hregisters
  have hrun₁ := run_performBehind hface₁ halike.modify₁ hfew
  have hrun₂ := run_performBehind hface₂ halike.modify₂ (halike.length ▸ hfew)
  rw [← performBehind_eq_of_alike halike, ← halike.length] at hrun₂
  -- One program is left, and the fetches of the modifiers are not among its accesses.
  unfold Overlooks at hoverlooks
  rw [accesses_performBehind hface₁ halike.modify₁ hfew,
    List.drop_left' (GrantedAccess.length_fetchesOf _ _)] at hoverlooks
  have hsame := run_sameOutside (performBehind r code₁)
    (r := (past code₁.length ⟨r, memory₁⟩).registers) hmemory hoverlooks
  refine ⟨step_fst_congr rfl ?_, ?_⟩
  · rw [hrun₁, hrun₂]
    exact hsame.1
  · rw [step_snd, step_snd, hrun₁, hrun₂]
    exact hsame.2

/-- Of modifiers that are too many, the last that is looked at is reported. -/
theorem step_alike_of_many (hmany : Encoding.maxModifiers < code₁.length) :
    (code₁[Encoding.maxModifiers]? = code₂[Encoding.maxModifiers]? → m₁.step.1 = m₂.step.1)
      ∧ m₁.step.2.registers = m₂.step.2.registers
      ∧ m₁.step.2.memory.SameOutside hidden m₂.step.2.memory := by
  have hmany₂ : Encoding.maxModifiers < code₂.length := halike.length ▸ hmany
  have hstep₁ := step_of_many hface₁ halike.modify₁ hmany
  have hstep₂ := step_of_many hface₂ halike.modify₂ hmany₂
  rw [hstep₁, hstep₂]
  refine ⟨fun hlast => ?_, ?_, hmemory⟩
  · rw [List.getElem?_eq_getElem hmany, List.getElem?_eq_getElem hmany₂] at hlast
    rw [hregisters, Option.some.inj hlast]
  · unfold past skip
    rw [hregisters]

end Alike

/-- In front of an opcode there may be fifteen modifiers in whatever order and however often: the
instruction is handed the last override and the last repetition among them. A sixteenth ends the
step, and nothing behind it is looked at. So a run of modifiers can be replaced by another of its
length that ends up with the same. Where there are too many, the one that is reported may differ,
and nothing else. -/
theorem step_heeds_last_modifiers (hmodify : ∀ byte ∈ code, isModifier byte = true)
    (hface : m.Faces code) :
    (∀ opcode, isModifier opcode = false → code.length ≤ Encoding.maxModifiers →
      m.Faces (code ++ [opcode]) →
        ∃ instruction, Opcode.ofByte opcode = .instruction instruction
          ∧ LatchedMachine.fetch Instruction.maxModifiers ⟨m, Modifiers.none⟩
            = (.ok (opcode, instruction), ⟨m.past (code.length + 1),
              ⟨override? code m.registers, repetition? code⟩⟩)
          ∧ m.step = (m.past (code.length + 1)).dispatch m.registers.codePointer opcode instruction
            ⟨override? code m.registers, repetition? code⟩)
      ∧ (∀ hmany : Encoding.maxModifiers < code.length,
        m.step = (.stopped (.gaveUp m.registers.codePointer
          (.undefinedOpcode code[Encoding.maxModifiers])), m.past (Encoding.maxModifiers + 1)))
      ∧ ∀ (m' : Machine) (code' : List Byte) (hidden : Slot → Prop),
        Alike code code' → m'.Faces code' → m.registers = m'.registers →
        m.memory.SameOutside hidden m'.memory → m.Overlooks code.length hidden →
          (code.length ≤ Encoding.maxModifiers
            ∨ code[Encoding.maxModifiers]? = code'[Encoding.maxModifiers]? →
              m.step.1 = m'.step.1)
            ∧ m.step.2.registers = m'.step.2.registers
            ∧ m.step.2.memory.SameOutside hidden m'.step.2.memory := by
  refine ⟨fun opcode hproper hfew hall => ?_, step_of_many hface hmodify,
    fun m' code' hidden halike hface' hregisters hmemory hoverlooks => ?_⟩
  · obtain ⟨instruction, hopcode⟩ := exists_instruction hproper
    have hfetch := run_fetch_of_few hall hmodify hfew hopcode
    have hlatched := LatchedMachine.fetch_eq_ok (l := ⟨m, Modifiers.none⟩) hfetch
    exact ⟨instruction, hopcode, hlatched, step_of_fetch hfetch⟩
  · rcases Nat.lt_or_ge Encoding.maxModifiers code.length with hmany | hfew
    · obtain ⟨hend, hafter⟩ := step_alike_of_many halike hface hface' hregisters hmemory hmany
      exact ⟨fun hreported => hend (hreported.resolve_left (Nat.not_le_of_lt hmany)), hafter⟩
    · obtain ⟨hend, hafter⟩ :=
        step_alike_of_few halike hface hface' hregisters hmemory hfew hoverlooks
      exact ⟨fun _ => hend, hafter⟩

/-! ## An instance -/

/-- A machine that is about to load two bytes of the stack segment, not of the extra segment that
its first modifier names. -/
def modified : Machine :=
  ⟨{ Registers.initial with cx := 2, si := 0xc0, ss := 4 },
    .onePage [0x26, 0xf3, 0xf0, 0x36, 0xf2, 0xac]⟩

/-- The same with other modifiers that end up with the same. -/
def modified' : Machine :=
  ⟨{ Registers.initial with cx := 2, si := 0xc0, ss := 4 },
    .onePage [0x36, 0x3e, 0xf2, 0x36, 0xf0, 0xac]⟩

/-- A machine in front of sixteen modifiers. -/
def crowded : Machine :=
  ⟨Registers.initial, .onePage (List.replicate 15 0x26 ++ [0xf0])⟩

/-- The two machines load the same, and the third is stopped by the last of its modifiers. -/
theorem step_heeds_last_modifiers_loading :
    (LatchedMachine.fetch Instruction.maxModifiers ⟨modified, Modifiers.none⟩).2
        = ⟨modified.past 6, ⟨some 4, some .whileNotEqual⟩⟩
      ∧ modified.step.1 = modified'.step.1
      ∧ modified.step.2.registers = modified'.step.2.registers
      ∧ crowded.step = (.stopped (.gaveUp ⟨0, 0⟩ (.undefinedOpcode 0xf0)), crowded.past 16) := by
  have hface : modified.Faces ([0x26, 0xf3, 0xf0, 0x36, 0xf2] ++ [0xac]) :=
    faces_onePage [] rfl rfl (by decide)
  have hface' : modified'.Faces ([0x36, 0x3e, 0xf2, 0x36, 0xf0] ++ [0xac]) :=
    faces_onePage [] rfl rfl (by decide)
  have hcrowded : crowded.Faces (List.replicate 15 0x26 ++ [0xf0]) :=
    faces_onePage [] rfl rfl (by decide)
  have halike : Alike [0x26, 0xf3, 0xf0, 0x36, 0xf2] [0x36, 0x3e, 0xf2, 0x36, 0xf0] :=
    ⟨by decide, by decide, rfl, by decide, by decide⟩
  have hplaces : ∀ granted ∈ modified.accesses.drop 5,
      5 ≤ granted.place.linear ∧ granted.place.linear < pageSize := by
    decide +kernel
  -- What is fetched behind the modifiers and what is loaded lies on the only page.
  have hoverlooks : modified.Overlooks 5 (·.offset < 5) := by
    intro granted hgranted _ slot hslot
    obtain ⟨hlow, hhigh⟩ := hplaces granted hgranted
    have hplace : slot = ⟨0, granted.place.linear⟩ :=
      Except.ok.inj (hslot.symm.trans (PagedMemory.locate_onePage _ granted.access hhigh))
    rw [hplace]
    exact Nat.not_lt.mpr hlow
  have hmemory : modified.memory.SameOutside (·.offset < 5) modified'.memory :=
    PagedMemory.sameOutside_onePage (by decide) (by decide) rfl
  obtain ⟨hfew, -, hother⟩ :=
    step_heeds_last_modifiers halike.modify₁ (faces_append_iff.mp hface).1
  obtain ⟨instruction, -, hlatched, -⟩ := hfew 0xac rfl (by decide) hface
  obtain ⟨hend, hregisters, -⟩ := hother modified' _ (·.offset < 5) halike
    (faces_append_iff.mp hface').1 rfl hmemory hoverlooks
  obtain ⟨-, hmany, -⟩ := step_heeds_last_modifiers (by decide) hcrowded
  exact ⟨congrArg Prod.snd hlatched, hend (.inl (by decide)), hregisters, hmany (by decide)⟩

end Machine

end CmStream
